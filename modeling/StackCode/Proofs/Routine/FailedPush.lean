import StackCode.Proofs.Pool.Thieves
import StackCode.Proofs.Routine.Building
import StackCode.Proofs.Transform.Unwinding

namespace StackCode

/-!
# Pushes that fail

A push changes several things one after the other, and does not take them back when it fails.  What
is left depends on how far it got: nothing has changed before the instruction is stored, and behind
that only a label that the pool does not know can stop it.

* `Builder.Reached` — the builders that calls lead to, failing ones included, and labels of other
  builders or of earlier routines.
* `Builder.doesDeeds_call` — all that a call does to the pool is to store and to steal.
* `Pool.run_steals_eq_error` — steals in sequence stop at the first label that is unknown.
* `Builder.Fails` — how a push fails, and what it leaves.
* `Builder.fails_of_push` — a push fails in these ways and in no other.
-/

/-! ### Steals that fail -/

namespace Pool

variable {p q : Pool} {id thief t : Handle} {victims : List Handle} {e : BuildError}

/-- Stealing fails when there is no such victim. -/
theorem run_steal_of_size_le (hthief : thief < p.size) (h : p.size ≤ id) :
    (steal thief id).run p = .error (.unknownInstr id) p := by
  have hcheck : checkBelow p.size id = .error (.unknownInstr id) := checkBelow_eq_error.2 ⟨h, rfl⟩
  simp [steal, guarded, checkBelow_eq_ok.2 hthief, hcheck]

/-- Stealing succeeds, from oneself as well, and keeps the size of the pool. -/
theorem exists_run_steal (hp : p.AllNoted) (hthief : thief < p.size) (h : id < p.size) :
    ∃ q, (steal thief id).run p = .ok () q ∧ q.AllNoted ∧ q.size = p.size := by
  by_cases hne : thief = id
  · exact ⟨p, by simp [steal, guarded, checkBelow_eq_ok.2 h, hne], hp, rfl⟩
  · exact ⟨_, run_steal_ok hthief h hne, hp.moveJumps hthief, hp.size_moveJumps⟩

/-- What was stolen from stays in the pool. -/
theorem size_of_run_steals (hp : p.AllNoted)
    (hrun : (victims.forM (steal thief)).run p = .ok () q) : q.size = p.size := by
  induction victims generalizing p with
  | nil =>
    cases hrun
    rfl
  | cons v rest ih =>
    have hsplit : (do steal thief v; rest.forM (steal thief) : PoolM Unit).run p = .ok () q := hrun
    obtain ⟨_, p', hsteal, hrest⟩ := run_bind_eq_ok.1 hsplit
    rcases eq_of_run_steal hsteal with ⟨-, rfl⟩ | ⟨-, hthief, -, rfl⟩
    · exact ih hp hrest
    · exact (ih (hp.moveJumps hthief) hrest).trans hp.size_moveJumps

/-- Steals in sequence go on from a pool of the same size when the first victim is known. -/
theorem exists_run_steals_cons (hp : p.AllNoted) (hthief : thief < p.size) (h : id < p.size) :
    ∃ p', p'.AllNoted ∧ p'.size = p.size ∧ ∀ vs : List Handle,
      ((id :: vs).forM (steal thief)).run p = (vs.forM (steal thief)).run p' := by
  obtain ⟨p', hsteal, hp', hsize⟩ := exists_run_steal hp hthief h
  refine ⟨p', hp', hsize, fun vs => ?_⟩
  show (do steal thief id; vs.forM (steal thief) : PoolM Unit).run p = _
  rw [EStateM.run_bind, hsteal]

/-- Steals in sequence stop at once when the first victim is not in the pool, and nothing is
    stolen. -/
theorem run_steals_of_size_le (hthief : thief < p.size) (h : p.size ≤ id) (vs : List Handle) :
    ((id :: vs).forM (steal thief)).run p = .error (.unknownInstr id) p := by
  show (do steal thief id; vs.forM (steal thief) : PoolM Unit).run p = _
  rw [EStateM.run_bind, run_steal_of_size_le hthief h]

/-- **Steals that fail.** Steals in sequence fail at the first victim that is not of the pool, and
    what was stolen before stays stolen. -/
theorem run_steals_eq_error (hp : p.AllNoted) (hthief : thief < p.size) :
    (victims.forM (steal thief)).run p = .error e q ↔
      ∃ before bad behind, victims = before ++ bad :: behind ∧ (∀ v ∈ before, v < p.size) ∧
        p.size ≤ bad ∧ e = .unknownInstr bad ∧ (before.forM (steal thief)).run p = .ok () q := by
  induction victims generalizing p with
  | nil =>
    constructor
    · intro h
      cases h
    · rintro ⟨before, bad, behind, h, -⟩
      cases before <;> cases h
  | cons v rest ih =>
    rcases Nat.lt_or_ge v p.size with hv | hv
    · -- The first steal succeeds and keeps the size, so the others fail in the new pool just as in
      -- the old one.
      obtain ⟨p', hp', hsize, hstep⟩ := exists_run_steals_cons hp hthief hv
      rw [hstep, ih hp' (hsize ▸ hthief), hsize]
      constructor
      · rintro ⟨before, bad, behind, rfl, hbefore, hbad, he, hrun⟩
        exact ⟨v :: before, bad, behind, rfl, List.forall_mem_cons.2 ⟨hv, hbefore⟩, hbad, he,
          (hstep before).trans hrun⟩
      · rintro ⟨before, bad, behind, heq, hbefore, hbad, he, hrun⟩
        cases before with
        | nil =>
          cases heq
          exact absurd hv (Nat.not_lt.2 hbad)
        | cons w before =>
          cases heq
          exact ⟨before, bad, behind, rfl, (List.forall_mem_cons.1 hbefore).2, hbad, he,
            (hstep before).symm.trans hrun⟩
    · rw [run_steals_of_size_le hthief hv]
      constructor
      · intro h
        cases h
        exact ⟨[], v, rest, rfl, List.forall_mem_nil _, hv, rfl, rfl⟩
      · rintro ⟨before, bad, behind, heq, hbefore, hbad, rfl, hrun⟩
        cases before with
        | nil =>
          cases heq
          cases hrun
          rfl
        | cons w before =>
          cases heq
          exact absurd (hbefore v List.mem_cons_self) (Nat.not_lt.2 hv)

/-- Nothing is stored whose jump leaves the pool. -/
theorem run_insert_of_size_le {i : Instr} (ht : i.target? = some t) (hout : p.size ≤ t) :
    (Pool.insert i).run p = .error (.unknownInstr t) p := by
  have hcheck : checkTarget p.size i.operand = .error (.unknownInstr t) := by
    rw [checkTarget, show i.operand.target? = some t from ht]
    exact checkBelow_eq_error.2 ⟨hout, rfl⟩
  simp [Pool.insert, guarded, hcheck]

/-! ### Where chains lead -/

/-- A handle out of the pool has no thief, and stands for itself. -/
theorem resolve_of_size_le (h : p.size ≤ t) : p.resolve t = t := by
  refine resolveIn_of_none ?_ _
  rw [stolenBy, Array.getElem?_eq_none h]
  rfl

/-- A chain that starts in the pool ends there. -/
theorem ThievesKnown.resolve_lt (h : p.ThievesKnown) (ht : t < p.size) : p.resolve t < p.size := by
  have hwalk : ∀ fuel t, t < p.size → p.resolveIn fuel t < p.size := by
    intro fuel
    induction fuel with
    | zero => exact fun t ht => ht
    | succ fuel ih =>
      intro t ht
      rw [resolveIn]
      cases hnext : p.stolenBy t with
      | none => exact ht
      | some next => exact ih next (h t next hnext)
  exact hwalk p.size t ht

/-- The jumps of the pool are noted, and its thieves are known: what the calls of a builder keep. -/
def Kempt (p : Pool) : Prop := p.AllNoted ∧ p.ThievesKnown

/-- Storing and stealing keep a pool kempt. -/
theorem Kempt.deeds {ds : List Deed} (h : p.Kempt) (hds : Deeds p ds q) : q.Kempt := by
  induction hds with
  | nil => exact h
  | cons hd _ ih => exact ih ⟨hd.allNoted h.1, hd.thievesKnown h.1 h.2⟩

/-- The empty pool is kempt: it has no jumps and no thieves. -/
theorem kempt_empty : Kempt {} :=
  ⟨consistent_empty.notes, fun id thief h => by simp [stolenBy] at h⟩

/-- The pool with one more instruction, the target of a jump resolved. -/
def stored (p : Pool) (i : Instr) : Pool := (p.push (i.mapTarget p.resolve)).link p.size

section

variable {i : Instr}

/-- The jump that is stored leads into the pool as well. -/
theorem Kempt.target_lt (h : p.Kempt) (hi : Admits p.size i) :
    ∀ t, (i.mapTarget p.resolve).target? = some t → t < p.size := by
  intro t ht
  rw [Instr.target?, Instr.mapTarget, Operand.target?_mapTarget] at ht
  obtain ⟨t', ht', rfl⟩ := Option.map_eq_some_iff.1 ht
  exact h.2.resolve_lt (hi.2 t' ht')

/-- Storing an admitted instruction adds it to the pool, and its jump to the notes. -/
theorem Kempt.stored (h : p.Kempt) (hi : Admits p.size i) :
    (p.stored i).AllNoted ∧ (p.stored i).size = p.size + 1 := by
  refine ⟨h.1.insert (h.target_lt hi), ?_⟩
  rw [Pool.stored, size_link, size_push]

end

end Pool

namespace Builder

variable {b b' : Builder} {i : Instr} {opcode : Opcode} {operand : Operand} {e : BuildError}

/-! ### Actions on the pool -/

/-- An action on the pool keeps what it left there, whether it fails or not. -/
theorem run_onPool {α : Type} (act : PoolM α) (b : Builder) : (onPool act).run b =
    match act.run b.draft.pool with
    | .ok a q => .ok a { b with draft := { b.draft with pool := q } }
    | .error e q => .error e { b with draft := { b.draft with pool := q } } := rfl

/-- An action on the pool fails in the builder as it does in the pool. -/
theorem run_onPool_eq_error {α : Type} {act : PoolM α} :
    (onPool act).run b = .error e b' ↔ ∃ q, act.run b.draft.pool = .error e q ∧
      b' = { b with draft := { b.draft with pool := q } } := by
  rw [run_onPool]
  cases act.run b.draft.pool with
  | ok a q => simp
  | error e' q => simp [and_assoc, eq_comm]

/-- A traversal on the pool is one action on it. -/
theorem forM_onPool (act : Handle → PoolM Unit) (ids : List Handle) :
    (ids.forM fun id => onPool (act id)) = onPool (ids.forM act) := by
  induction ids with
  | nil => rfl
  | cons id rest ih =>
    funext b
    show (do onPool (act id); rest.forM fun id => onPool (act id) : BuilderM Unit).run b =
      (onPool (do act id; rest.forM act)).run b
    rw [ih, run_onPool, EStateM.run_bind, EStateM.run_bind, run_onPool]
    cases (act id).run b.draft.pool with
    | ok _ q => rfl
    | error _ q => rfl

/-! ### Calls as deeds -/

/-- All that the action does to the pool is to store and to steal, whether it fails or not. -/
def DoesDeeds {α : Type} (x : BuilderM α) : Prop :=
  ∀ b, ∃ ds, Pool.Deeds b.draft.pool ds (endState (x.run b)).draft.pool

/-- An action that leaves the pool alone does no deed. -/
theorem doesDeeds_of_keeps {α : Type} {x : BuilderM α} (h : Keeps (·.draft.pool) x) :
    DoesDeeds x := by
  intro b
  have hpool : (endState (x.run b)).draft.pool = b.draft.pool := h b
  exact ⟨[], hpool ▸ .nil⟩

/-- Checks do no deed. -/
theorem doesDeeds_guarded {α : Type} (check : Except BuildError α) :
    DoesDeeds (guarded check) := by
  cases check with
  | ok a => exact doesDeeds_of_keeps (keeps_pure a)
  | error e => exact doesDeeds_of_keeps (keeps_throw e)

/-- One action after the other does the deeds of both, or those of the first if that fails. -/
theorem doesDeeds_bind {α β : Type} {x : BuilderM α} {f : α → BuilderM β} (hx : DoesDeeds x)
    (hf : ∀ a, DoesDeeds (f a)) : DoesDeeds (x >>= f) := by
  intro b
  obtain ⟨ds, hds⟩ := hx b
  rw [EStateM.run_bind]
  cases hresult : x.run b with
  | error e b' =>
    rw [hresult] at hds
    exact ⟨ds, hds⟩
  | ok a b' =>
    rw [hresult] at hds
    obtain ⟨ds', hds'⟩ := hf a b'
    exact ⟨ds ++ ds', hds.append hds'⟩

/-- Storing is one deed when it succeeds, and none when it fails. -/
theorem doesDeeds_insert (i : Instr) : DoesDeeds (onPool (Pool.insert i)) := by
  intro b
  rw [run_onPool]
  rcases Pool.run_insert b.draft.pool i with ⟨e, hrun⟩ | ⟨id, q, hrun, hd⟩
  · rw [hrun]
    exact ⟨[], .nil⟩
  · rw [hrun]
    exact ⟨_, .cons hd .nil⟩

/-- Stealing is one deed when it succeeds, and none when it fails. -/
theorem doesDeeds_steal (thief victim : Handle) : DoesDeeds (onPool (Pool.steal thief victim)) := by
  intro b
  rw [run_onPool]
  rcases Pool.run_steal b.draft.pool thief victim with ⟨e, hrun⟩ | ⟨q, hrun, hd⟩
  · rw [hrun]
    exact ⟨[], .nil⟩
  · rw [hrun]
    exact ⟨_, .cons hd .nil⟩

/-- Steals in sequence are deeds, up to the first one that fails. -/
theorem doesDeeds_steals (thief : Handle) (victims : List Handle) :
    DoesDeeds (victims.forM fun v => onPool (Pool.steal thief v)) := by
  induction victims with
  | nil => exact doesDeeds_of_keeps (keeps_pure ())
  | cons v rest ih => exact doesDeeds_bind (doesDeeds_steal thief v) fun _ => ih

/-- Changes beside the pool do no deed. -/
theorem doesDeeds_modify {f : Builder → Builder} (h : ∀ b, (f b).draft.pool = b.draft.pool) :
    DoesDeeds (modify f) :=
  doesDeeds_of_keeps (keeps_modify h)

/-- What is left of a push is one store and the steals from the labels that wait. -/
theorem doesDeeds_append (b : Builder) (i : Instr) : DoesDeeds (append b i) := by
  refine doesDeeds_bind (doesDeeds_insert i) fun id => ?_
  refine doesDeeds_bind (doesDeeds_modify fun _ => rfl) fun _ => ?_
  refine doesDeeds_bind (doesDeeds_steals id b.pendingLabels) fun _ => ?_
  exact doesDeeds_bind (doesDeeds_modify fun _ => rfl) fun _ => doesDeeds_of_keeps (keeps_pure id)

/-- A push of an instruction resolves its target without a deed, and appends the instruction. -/
theorem doesDeeds_pushInstr (i : Instr) : DoesDeeds (pushInstr i) := by
  refine doesDeeds_bind (doesDeeds_of_keeps keeps_get) fun b => ?_
  dsimp only
  split
  · exact doesDeeds_bind (doesDeeds_guarded _) fun i => doesDeeds_append b i
  · exact doesDeeds_append b i

/-- **Calls as deeds.** All that a call does to the pool is to store and to steal. -/
theorem doesDeeds_call (c : Call) : DoesDeeds c.run := by
  have hnone : ∀ x : BuilderM Unit, DoesDeeds x →
      DoesDeeds (do x; return none : BuilderM (Option Handle)) := fun x hx =>
    doesDeeds_bind hx fun _ => doesDeeds_of_keeps (keeps_pure none)
  have hsome : ∀ x : BuilderM Handle, DoesDeeds x →
      DoesDeeds (do return some (← x) : BuilderM (Option Handle)) := fun x hx =>
    doesDeeds_bind hx fun id => doesDeeds_of_keeps (keeps_pure (some id))
  cases c with
  | set setting => exact hnone _ (doesDeeds_modify fun _ => by cases setting <;> rfl)
  | args words =>
    exact hnone _ (doesDeeds_bind (doesDeeds_guarded _) fun _ => doesDeeds_modify fun _ => rfl)
  | line n => exact hnone _ (doesDeeds_modify fun _ => rfl)
  | label => exact hsome _ (doesDeeds_bind (doesDeeds_guarded _) fun i => doesDeeds_insert i)
  | place label => exact hnone _ (doesDeeds_modify fun _ => rfl)
  | push opcode operand =>
    exact hsome _ (doesDeeds_bind (doesDeeds_guarded _) fun i => doesDeeds_pushInstr i)
  | pushInstr i => exact hsome _ (doesDeeds_pushInstr i)

/-! ### Builders that calls lead to -/

/-- The builders that calls lead to, whether the calls fail or not.  A label may be placed that the
    builder has not given out, or gave out before it was asked to build. -/
inductive Reached : Builder → Prop where
  | new : Reached {}
  | unnamed : Reached { draft := {} }
  | call {b : Builder} (c : Call) : Reached b → Reached (endState (c.run.run b))
  | build {b : Builder} : Reached b → Reached (endState (build.run b))

/-- The pools of builders that calls lead to are kempt. -/
theorem Reached.kempt (h : Reached b) : b.draft.pool.Kempt := by
  induction h with
  | new | unnamed => exact Pool.kempt_empty
  | call c _ ih =>
    obtain ⟨ds, hds⟩ := doesDeeds_call c _
    exact ih.deeds hds
  | @build b _ ih =>
    rw [run_build]
    split
    · split <;> exact Pool.kempt_empty
    · exact ih

/-! ### Pushes -/

/-- A push that fits resolves the target of its jump, and appends the instruction. -/
theorem run_push_eq_append (hfits : operand.fits opcode.operandClass = true) :
    (push opcode operand).run b =
      (append b (Instr.mapTarget b.draft.pool.resolve ⟨opcode, operand⟩)).run b := by
  have hnew : ∀ operand : Operand, operand.fits opcode.operandClass = true →
      Instr.new? opcode operand = .ok ⟨opcode, operand⟩ := fun operand h =>
    Pool.new?_eq_ok.2 ⟨h, rfl⟩
  show (guarded (Instr.new? opcode operand) >>= pushInstr).run b = _
  rw [hnew operand hfits]
  cases operand with
  | jump t =>
    -- Only jumps are resolved, and only they are made anew.
    have hresolved : (Operand.jump (b.draft.pool.resolve t)).fits opcode.operandClass = true :=
      (Operand.fits_mapTarget (.jump t) _).trans hfits
    show (guarded (Instr.new? opcode (.jump (b.draft.pool.resolve t))) >>= append b).run b = _
    rw [hnew _ hresolved]
    rfl
  | _ => rfl

/-- How a push on `b` fails: the error, and the builder that it leaves. -/
inductive Fails (b : Builder) (opcode : Opcode) (operand : Operand) :
    BuildError → Builder → Prop where
  /-- The operand does not fit the opcode. -/
  | misfit (h : operand.fits opcode.operandClass = false) :
      Fails b opcode operand (.operandMismatch opcode operand.kind) b
  /-- The jump leaves the pool. -/
  | astray {t : Handle} (hfits : operand.fits opcode.operandClass = true)
      (hjump : operand = .jump t) (hout : b.draft.pool.size ≤ t) :
      Fails b opcode operand (.unknownInstr t) b
  /-- A label that waits is unknown.  By then the instruction is in the pool and has taken over from
      the labels before, and no label waits any more. -/
  | stranded {before behind : List Handle} {bad : Handle} {q : Pool}
      (hadmits : Pool.Admits b.draft.pool.size ⟨opcode, operand⟩)
      (hlabels : b.pendingLabels = before ++ bad :: behind)
      (hbefore : ∀ label ∈ before, label ≤ b.draft.pool.size) (hbad : b.draft.pool.size < bad)
      (hsteals : (before.forM (Pool.steal b.draft.pool.size)).run
        (b.draft.pool.stored ⟨opcode, operand⟩) = .ok () q) :
      Fails b opcode operand (.unknownInstr bad)
        { b with pendingLabels := [], draft := { b.draft with pool := q } }

/-- Nothing is appended whose jump leaves the pool, and no label is dropped by then. -/
theorem run_append_astray {t : Handle} (ht : i.target? = some t) (hout : b.draft.pool.size ≤ t) :
    (append b i).run b = .error (.unknownInstr t) b := by
  rw [append, EStateM.run_bind, run_onPool, Pool.run_insert_of_size_le ht hout]

/-- Once the instruction is stored, only the steals from the labels that wait can fail. -/
theorem run_append_eq_error (hin : ∀ t, i.target? = some t → t < b.draft.pool.size) :
    (append b i).run b = .error e b' ↔ ∃ q,
      (b.pendingLabels.forM (Pool.steal b.draft.pool.size)).run
        ((b.draft.pool.push i).link b.draft.pool.size) = .error e q ∧
      b' = { b with pendingLabels := [], draft := { b.draft with pool := q } } := by
  rw [append, EStateM.run_bind, run_onPool, Pool.run_insert_ok hin]
  show EStateM.run (do
    b.pendingLabels.forM fun l => onPool (Pool.steal b.draft.pool.size l)
    modify _
    return b.draft.pool.size : BuilderM Handle) { b with
      pendingLabels := []
      draft := { b.draft with pool := (b.draft.pool.push i).link b.draft.pool.size } } = _ ↔ _
  rw [forM_onPool, run_bind_eq_error, run_onPool_eq_error]
  constructor
  · rintro (h | ⟨_, _, -, h⟩)
    · exact h
    · cases h
  · exact .inl

/-- A push of a misfit fails before it begins. -/
theorem run_push_misfit (h : operand.fits opcode.operandClass = false) :
    (push opcode operand).run b = .error (.operandMismatch opcode operand.kind) b := by
  have hnew : Instr.new? opcode operand = .error (.operandMismatch opcode operand.kind) :=
    Pool.new?_eq_error.2 ⟨h, rfl⟩
  show (guarded (Instr.new? opcode operand) >>= pushInstr).run b = _
  rw [hnew]
  rfl

/-- A push of a jump that leaves the pool fails before anything is stored: nobody has taken over
    from its target. -/
theorem run_push_astray {t : Handle} (hfits : (Operand.jump t).fits opcode.operandClass = true)
    (hout : b.draft.pool.size ≤ t) :
    (push opcode (.jump t)).run b = .error (.unknownInstr t) b := by
  have htarget : (Instr.mapTarget b.draft.pool.resolve ⟨opcode, .jump t⟩).target? = some t :=
    congrArg some (Pool.resolve_of_size_le hout)
  rw [run_push_eq_append hfits, run_append_astray htarget hout]

/-- All other pushes store the instruction, and fail at a label that waits and is unknown. -/
theorem run_push_stranded (hpool : b.draft.pool.Kempt)
    (hadmits : Pool.Admits b.draft.pool.size ⟨opcode, operand⟩) :
    (push opcode operand).run b = .error e b' ↔ ∃ before bad behind q,
      b.pendingLabels = before ++ bad :: behind ∧
      (∀ label ∈ before, label ≤ b.draft.pool.size) ∧ b.draft.pool.size < bad ∧
      (before.forM (Pool.steal b.draft.pool.size)).run
        (b.draft.pool.stored ⟨opcode, operand⟩) = .ok () q ∧
      e = .unknownInstr bad ∧
      b' = { b with pendingLabels := [], draft := { b.draft with pool := q } } := by
  have hin := hpool.target_lt hadmits
  obtain ⟨hnoted, hsize⟩ := hpool.stored hadmits
  have hthief : b.draft.pool.size < (b.draft.pool.stored ⟨opcode, operand⟩).size := by
    rw [hsize]
    exact Nat.lt_succ_self _
  -- By then the pool has one instruction more, so a label is unknown if it is beyond the new one.
  have hsteals : ∀ q, (b.pendingLabels.forM (Pool.steal b.draft.pool.size)).run
      (b.draft.pool.stored ⟨opcode, operand⟩) = .error e q ↔ _ := fun q =>
    Pool.run_steals_eq_error hnoted hthief
  simp only [hsize, Nat.lt_succ_iff, Nat.succ_le_iff] at hsteals
  rw [run_push_eq_append hadmits.1, run_append_eq_error hin]
  simp only [Pool.stored] at hsteals ⊢
  simp only [hsteals]
  constructor
  · rintro ⟨q, ⟨before, bad, behind, hlabels, hbefore, hbad, he, hsteals⟩, hb'⟩
    exact ⟨before, bad, behind, q, hlabels, hbefore, hbad, hsteals, he, hb'⟩
  · rintro ⟨before, bad, behind, q, hlabels, hbefore, hbad, hsteals, he, hb'⟩
    exact ⟨q, ⟨before, bad, behind, hlabels, hbefore, hbad, he, hsteals⟩, hb'⟩

/-- An operand does not fit, or is a jump that leaves the pool, or is admitted. -/
theorem misfit_or_astray_or_admits (n : Nat) (opcode : Opcode) (operand : Operand) :
    operand.fits opcode.operandClass = false ∨
      (operand.fits opcode.operandClass = true ∧ ∃ t, operand = .jump t ∧ n ≤ t) ∨
      Pool.Admits n ⟨opcode, operand⟩ := by
  by_cases hfits : operand.fits opcode.operandClass = true
  · cases hcheck : Pool.checkTarget n operand with
    | ok _ => exact .inr (.inr ⟨hfits, Pool.checkTarget_eq_ok.1 hcheck⟩)
    | error e =>
      obtain ⟨t, hjump, hout, -⟩ := Pool.checkTarget_eq_error.1 hcheck
      exact .inr (.inl ⟨hfits, t, hjump, hout⟩)
  · exact .inl (Bool.eq_false_iff.2 hfits)

/-- **Pushes that fail.** Whatever calls were made, a push fails in the ways of `Fails` and in no
    other. -/
theorem Reached.run_push_eq_error (h : Reached b) :
    (push opcode operand).run b = .error e b' ↔ Fails b opcode operand e b' := by
  constructor
  · intro hrun
    -- The operand decides which way it is; an admitted one can only fail behind the store.
    rcases misfit_or_astray_or_admits b.draft.pool.size opcode operand with
      hmisfit | ⟨hfits, t, rfl, hout⟩ | hadmits
    · cases (run_push_misfit hmisfit).symm.trans hrun
      exact .misfit hmisfit
    · cases (run_push_astray hfits hout).symm.trans hrun
      exact .astray hfits rfl hout
    · obtain ⟨before, bad, behind, q, hlabels, hbefore, hbad, hsteals, rfl, rfl⟩ :=
        (run_push_stranded h.kempt hadmits).1 hrun
      exact .stranded hadmits hlabels hbefore hbad hsteals
  · intro hfails
    cases hfails with
    | misfit hmisfit => exact run_push_misfit hmisfit
    | astray hfits hjump hout =>
      subst hjump
      exact run_push_astray hfits hout
    | stranded hadmits hlabels hbefore hbad hsteals =>
      exact (run_push_stranded h.kempt hadmits).2
        ⟨_, _, _, _, hlabels, hbefore, hbad, hsteals, rfl, rfl⟩

/-- **Partial failure.** Whatever calls were made, a push fails in the ways of `Fails` and in no
    other, and keeps the sequence, the line map and the line that waits.  A misfit and a jump out of
    the pool leave the builder as it was.  Otherwise the instruction stays behind in the pool, and
    the labels that waited are dropped. -/
theorem fails_of_push (h : Reached b) (opcode : Opcode) (operand : Operand) :
    (∀ e b', (push opcode operand).run b = .error e b' ↔ Fails b opcode operand e b') ∧
      ∀ e b', Fails b opcode operand e b' →
        { b' with
          pendingLabels := b.pendingLabels
          draft := { b'.draft with pool := b.draft.pool } } = b ∧
        (¬Pool.Admits b.draft.pool.size ⟨opcode, operand⟩ → b' = b) ∧
        (Pool.Admits b.draft.pool.size ⟨opcode, operand⟩ →
          b'.draft.pool.size = b.draft.pool.size + 1 ∧ b.pendingLabels ≠ [] ∧
            b'.pendingLabels = []) := by
  refine ⟨fun e b' => h.run_push_eq_error, fun e b' hfails => ?_⟩
  cases hfails with
  | misfit hmisfit =>
    refine ⟨rfl, fun _ => rfl, fun hadmits => ?_⟩
    cases hmisfit.symm.trans hadmits.1
  | astray hfits hjump hout =>
    refine ⟨rfl, fun _ => rfl, fun hadmits => ?_⟩
    exact absurd (hadmits.2 _ (congrArg Operand.target? hjump)) (Nat.not_lt.2 hout)
  | stranded hadmits hlabels hbefore hbad hsteals =>
    refine ⟨rfl, fun hnot => absurd hadmits hnot, fun _ => ⟨?_, ?_, rfl⟩⟩
    · -- The instruction is stored by then, and the steals do not change the size.
      obtain ⟨hnoted, hsize⟩ := h.kempt.stored hadmits
      exact (Pool.size_of_run_steals hnoted hsteals).trans hsize
    · rw [hlabels]
      exact List.append_ne_nil_of_right_ne_nil _ (List.cons_ne_nil _ _)

/-- A builder that gave out two labels, was asked to build, and has the second of them placed. -/
def misplaced : Builder :=
  let labelled := endState (Call.label.run.run (endState (Call.label.run.run {})))
  endState ((Call.place 1).run.run (endState (build.run labelled)))

/-- Calls lead to it, although the label is one of the routine built before. -/
theorem reached_misplaced : Reached misplaced :=
  .call (.place 1) (.build (.call .label (.call .label .new)))

/-- The label is not known in the pool that began afresh, and the push fails with it. -/
theorem fails_of_push_misplaced : Reached misplaced ∧ ∃ b',
    (push .nop .none).run misplaced = .error (.unknownInstr 1) b' ∧ b'.draft.pool.size = 1 ∧
      b'.draft.instrs = [] ∧ misplaced.pendingLabels = [1] ∧ b'.pendingLabels = [] := by
  obtain ⟨hruns, hleft⟩ := fails_of_push reached_misplaced .nop .none
  have hadmits : Pool.Admits misplaced.draft.pool.size ⟨.nop, .none⟩ := ⟨rfl, nofun⟩
  have hwaits : misplaced.pendingLabels = [] ++ 1 :: [] := rfl
  have hfails : Fails misplaced .nop .none (.unknownInstr 1) _ :=
    .stranded hadmits hwaits (List.forall_mem_nil _) (by decide) rfl
  obtain ⟨-, -, hstranded⟩ := hleft _ _ hfails
  obtain ⟨hsize, -, hlabels⟩ := hstranded hadmits
  exact ⟨reached_misplaced, _, (hruns _ _).2 hfails, hsize, rfl, rfl, hlabels⟩

/-- The label that was placed is dropped, so that calling again would not fail. -/
theorem push_misplaced : ¬∀ b, Reached b → ∀ opcode operand e b',
    (push opcode operand).run b = .error e b' → b' = b := by
  intro h
  have hfail : ∃ b', (push .nop .none).run misplaced = .error (.unknownInstr 1) b' ∧
      b'.pendingLabels = [] := ⟨_, rfl, rfl⟩
  obtain ⟨b', hrun, hlabels⟩ := hfail
  rw [h misplaced reached_misplaced .nop .none _ _ hrun] at hlabels
  cases hlabels

end Builder

end StackCode

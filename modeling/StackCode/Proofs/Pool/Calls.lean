import StackCode.Proofs.Fallible
import StackCode.Proofs.Pool.BackEdges

namespace StackCode.Pool

/-!
# Calls that change a pool

Every operation checks its arguments before it changes anything.  So its success and its failure are
told by one statement, `FailsFor`: there is a reason, and the pool is as it was, or there is none,
and the pool has undergone a `Change`.  The invariant of the pool is checked against the changes
only, and passes from one call to any number of them.

* `Change` — what an operation that succeeds makes of a pool.
* `Call` — the operations with their arguments as data.
* `Call.Refuses` — the reasons why a call fails, each with its error: a handle or a jump that is
  not of the pool, or an operand that does not fit.
* `FailsFor` — an action fails for such a reason and leaves the pool as it was, or succeeds with a
  change; `Call.failsFor` says that calls do.
* `consistent_afterCalls` — jumps and jumpers agree after whatever calls.
-/

variable {p q : Pool} {e : BuildError}

/-! ### Checks -/

/-- An instruction is made of an opcode and an operand that fits it. -/
theorem new?_eq_ok {opcode : Opcode} {operand : Operand} {i : Instr} :
    Instr.new? opcode operand = .ok i ↔
      operand.fits opcode.operandClass = true ∧ i = ⟨opcode, operand⟩ := by
  unfold Instr.new?
  split
  · rename_i hfits
    simp [hfits, eq_comm]
  · rename_i hfits
    simp [hfits]

/-- Otherwise the error names the opcode and the kind of the operand. -/
theorem new?_eq_error {opcode : Opcode} {operand : Operand} :
    Instr.new? opcode operand = .error e ↔
      operand.fits opcode.operandClass = false ∧ e = .operandMismatch opcode operand.kind := by
  unfold Instr.new?
  split
  · rename_i hfits
    simp [hfits]
  · rename_i hfits
    simp [hfits, eq_comm]

/-- Instructions are made of opcodes and operands when all of the operands fit. -/
theorem mapM_new?_eq_ok {instrs : List (Opcode × Operand)} {made : List Instr} :
    instrs.mapM (fun i => Instr.new? i.1 i.2) = .ok made ↔
      (∀ i ∈ instrs, i.2.fits i.1.operandClass = true) ∧
        made = instrs.map fun i => ⟨i.1, i.2⟩ := by
  rw [mapM_eq_ok]
  induction instrs generalizing made with
  | nil => simp
  | cons i rest ih =>
    rw [List.forall₂_cons_left_iff, List.forall_mem_cons, List.map_cons]
    -- The induction hypothesis speaks of `Instr.new?`, so it goes first.
    simp only [ih]
    simp only [new?_eq_ok]
    constructor
    · rintro ⟨_, _, ⟨hi, rfl⟩, ⟨hrest, rfl⟩, rfl⟩
      exact ⟨⟨hi, hrest⟩, rfl⟩
    · rintro ⟨⟨hi, hrest⟩, rfl⟩
      exact ⟨_, _, ⟨hi, rfl⟩, ⟨hrest, rfl⟩, rfl⟩

/-- Handles below the bound pass the check. -/
theorem checkBelow_eq_ok {n : Nat} {id : Handle} : checkBelow n id = .ok () ↔ id < n := by
  unfold checkBelow
  split
  · rename_i hlt
    simp [hlt]
  · rename_i hlt
    simp [hlt]

/-- Handles from the bound on fail it, and the error names them. -/
theorem checkBelow_eq_error {n : Nat} {id : Handle} :
    checkBelow n id = .error e ↔ n ≤ id ∧ e = .unknownInstr id := by
  unfold checkBelow
  split
  · rename_i hlt
    simp [Nat.not_le.2 hlt]
  · rename_i hge
    simp [Nat.le_of_not_lt hge, eq_comm]

/-- An operand passes when its jump, if it is one, leads below the bound. -/
theorem checkTarget_eq_ok {n : Nat} {operand : Operand} :
    checkTarget n operand = .ok () ↔ ∀ t, operand.target? = some t → t < n := by
  unfold checkTarget
  cases operand.target? with
  | none => simp
  | some t => simp [checkBelow_eq_ok]

/-- An operand fails when it is a jump that leads to the bound or beyond. -/
theorem checkTarget_eq_error {n : Nat} {operand : Operand} :
    checkTarget n operand = .error e ↔
      ∃ t, operand = .jump t ∧ n ≤ t ∧ e = .unknownInstr t := by
  unfold checkTarget
  cases operand <;> simp [Operand.target?, checkBelow_eq_error]

/-- A batch passes when all of its jumps do. -/
theorem forM_checkTarget_eq_ok {n : Nat} {instrs : List Instr} :
    (instrs.forM fun i => checkTarget n i.operand) = .ok () ↔
      ∀ i ∈ instrs, ∀ t, i.target? = some t → t < n := by
  induction instrs with
  | nil => exact ⟨fun _ _ hi => absurd hi List.not_mem_nil, fun _ => rfl⟩
  | cons i rest ih =>
    show (do checkTarget n i.operand; rest.forM fun i => checkTarget n i.operand) = .ok () ↔ _
    rw [bind_eq_ok, List.forall_mem_cons]
    constructor
    · rintro ⟨_, hi, hrest⟩
      exact ⟨checkTarget_eq_ok.1 hi, ih.1 hrest⟩
    · rintro ⟨hi, hrest⟩
      exact ⟨(), checkTarget_eq_ok.2 hi, ih.2 hrest⟩

/-! ### Changes -/

/-- What an operation that succeeds makes of a pool. -/
inductive Change (p : Pool) : Pool → Prop where
  | insert {i : Instr} (hi : Admits p.size i) : Change p ((p.push i).link p.size)
  | insertMany {instrs : List Instr} (h : ∀ i ∈ instrs, Admits (p.size + instrs.length) i) :
      Change p ((List.range' p.size instrs.length).foldl link (instrs.foldl push p))
  | replace {id : Handle} {old : Instr} {operand : Operand} (hold : p.get? id = some old)
      (hnew : Admits p.size { old with operand := operand }) :
      Change p (((p.unlink id).setOperand id operand).link id)
  | steal {thief victim : Handle} (hthief : thief < p.size) : Change p (p.moveJumps thief victim)
  | stealOwn : Change p p

/-- All changes keep the pool consistent. -/
theorem Change.consistent (h : Change p q) (hp : p.Consistent) : q.Consistent := by
  cases h with
  | insert hi => exact hp.insert hi
  | insertMany h => exact hp.insertMany h
  | replace hold hnew => exact hp.replace hold hnew
  | steal hthief => exact hp.moveJumps hthief
  | stealOwn => exact hp

/-! ### Calls -/

/-- A call that may change a pool, with its arguments.  Instructions are given by opcode and
    operand, since `Instr.new?` is the way to make them. -/
inductive Call where
  | insert (opcode : Opcode) (operand : Operand)
  | insertMany (instrs : List (Opcode × Operand))
  | replace (id : Handle) (operand : Operand)
  | steal (thief victim : Handle)

/-- Makes the instructions of a call and calls the operation. -/
def Call.run : Call → PoolM Unit
  | .insert opcode operand => do
    let i ← guarded (Instr.new? opcode operand)
    let _ ← Pool.insert i
    return ()
  | .insertMany instrs => do
    let made ← guarded (instrs.mapM fun i => Instr.new? i.1 i.2)
    let _ ← Pool.insertMany made
    return ()
  | .replace id operand => Pool.replace id operand
  | .steal thief victim => Pool.steal thief victim

/-! ### Reasons -/

/-- The handles that a call is given. -/
def Call.handles : Call → List Handle
  | .insert .. | .insertMany _ => []
  | .replace id _ => [id]
  | .steal thief victim => [thief, victim]

/-- The opcodes and operands of the instructions that a call would store. -/
def Call.wanted (p : Pool) : Call → List (Opcode × Operand)
  | .insert opcode operand => [(opcode, operand)]
  | .insertMany instrs => instrs
  | .replace id operand => (p.get? id).toList.map fun old => (old.opcode, operand)
  | .steal .. => []

/-- The size of the pool for the jumps of a call: a batch counts as stored already. -/
def Call.room (p : Pool) : Call → Nat
  | .insertMany instrs => p.size + instrs.length
  | .insert .. | .replace .. | .steal .. => p.size

/-- A reason why a call fails, and the error for it. -/
inductive Call.Refuses (p : Pool) (c : Call) : BuildError → Prop where
  /-- A handle that is not of the pool. -/
  | unknown {id : Handle} (hid : id ∈ c.handles) (hout : p.size ≤ id) :
      Refuses p c (.unknownInstr id)
  /-- A jump that would leave the pool. -/
  | astray {opcode : Opcode} {t : Handle} (hjump : (opcode, .jump t) ∈ c.wanted p)
      (hout : c.room p ≤ t) : Refuses p c (.unknownInstr t)
  /-- An operand that does not fit its opcode. -/
  | misfit {opcode : Opcode} {operand : Operand} (hwanted : (opcode, operand) ∈ c.wanted p)
      (hmisfit : operand.fits opcode.operandClass = false) :
      Refuses p c (.operandMismatch opcode operand.kind)

/-- There is no reason when all handles are of the pool and all instructions are admitted. -/
theorem Call.not_refuses {c : Call} (hhandles : ∀ id ∈ c.handles, id < p.size)
    (hwanted : ∀ i ∈ c.wanted p, Admits (c.room p) ⟨i.1, i.2⟩) : ¬ c.Refuses p e := by
  intro h
  cases h with
  | unknown hid hout => exact absurd (hhandles _ hid) (Nat.not_lt.2 hout)
  | astray hjump hout => exact absurd ((hwanted _ hjump).2 _ rfl) (Nat.not_lt.2 hout)
  | misfit hmem hmisfit =>
    have hfits := (hwanted _ hmem).1
    rw [hmisfit] at hfits
    cases hfits

/-! ### Verdicts -/

/-- An action fails for one of the reasons and leaves the pool as it was, or there is no reason and
    it succeeds with a change. -/
def FailsFor {α : Type} (Reason : BuildError → Prop) (m : PoolM α) (p : Pool) : Prop :=
  (∃ e, Reason e ∧ m.run p = .error e p) ∨
    (∀ e, ¬ Reason e) ∧ ∃ a q, m.run p = .ok a q ∧ Change p q

variable {Reason : BuildError → Prop}

/-- A check that stands first fails for a reason, or lets the rest go on with its result. -/
theorem failsFor_guarded {α β : Type} {check : Except BuildError α} {k : α → PoolM β}
    (hfail : ∀ e, check = .error e → Reason e)
    (hrest : ∀ a, check = .ok a → FailsFor Reason (k a) p) :
    FailsFor Reason (guarded check >>= k) p := by
  cases check with
  | error e => exact .inl ⟨e, hfail e rfl, rfl⟩
  | ok a => exact hrest a rfl

/-- Dropping the result of an action changes none of its reasons to fail. -/
theorem failsFor_discard {α : Type} {m : PoolM α} (h : FailsFor Reason m p) :
    FailsFor Reason (do let _ ← m; return ()) p := by
  rcases h with ⟨e, he, hrun⟩ | ⟨hnone, a, q, hrun, hchange⟩
  · exact .inl ⟨e, he, by rw [EStateM.run_bind, hrun]⟩
  · exact .inr ⟨hnone, (), q, by rw [EStateM.run_bind, hrun]; rfl, hchange⟩

/-- Storing an instruction fails for the reasons of such a call. -/
theorem failsFor_insert (opcode : Opcode) (operand : Operand) :
    FailsFor ((Call.insert opcode operand).Refuses p) (Call.insert opcode operand).run p := by
  have hwanted : (opcode, operand) ∈ (Call.insert opcode operand).wanted p := List.mem_cons_self
  refine failsFor_guarded (fun e he => ?_) fun i hi => failsFor_discard ?_
  · obtain ⟨hmisfit, rfl⟩ := new?_eq_error.1 he
    exact .misfit hwanted hmisfit
  obtain ⟨hfits, rfl⟩ := new?_eq_ok.1 hi
  refine failsFor_guarded (p := p) (fun e he => ?_) fun _ hcheck => ?_
  · obtain ⟨t, rfl, hout, rfl⟩ := checkTarget_eq_error.1 he
    exact .astray hwanted hout
  have hadmits : Admits p.size ⟨opcode, operand⟩ := ⟨hfits, checkTarget_eq_ok.1 hcheck⟩
  refine .inr ⟨fun e => ?_, _, _, rfl, .insert hadmits⟩
  exact Call.not_refuses (List.forall_mem_nil _) (List.forall_mem_singleton.2 hadmits)

/-- Storing a batch fails for the reasons of such a call. -/
theorem failsFor_insertMany (instrs : List (Opcode × Operand)) :
    FailsFor ((Call.insertMany instrs).Refuses p) (Call.insertMany instrs).run p := by
  -- All instructions are made before the first jump is checked.
  refine failsFor_guarded (fun e he => ?_) fun _ hmake => failsFor_discard ?_
  · obtain ⟨⟨opcode, operand⟩, hmem, hfail⟩ := exists_of_mapM_eq_error he
    obtain ⟨hmisfit, rfl⟩ := new?_eq_error.1 hfail
    exact .misfit hmem hmisfit
  obtain ⟨hfits, rfl⟩ := mapM_new?_eq_ok.1 hmake
  refine failsFor_guarded (p := p) (fun e he => ?_) fun _ hcheck => ?_
  · obtain ⟨_, hmade, hfail⟩ := exists_of_forM_eq_error he
    obtain ⟨⟨opcode, operand⟩, hmem, rfl⟩ := List.mem_map.1 hmade
    obtain ⟨t, rfl, hout, rfl⟩ := checkTarget_eq_error.1 hfail
    rw [List.length_map] at hout
    exact .astray hmem hout
  have hadmits : ∀ i ∈ instrs, Admits (p.size + instrs.length) ⟨i.1, i.2⟩ := by
    intro i hi
    rw [List.length_map] at hcheck
    exact ⟨hfits i hi, forM_checkTarget_eq_ok.1 hcheck _ (List.mem_map_of_mem hi)⟩
  refine .inr ⟨fun e => ?_, _, _, rfl, .insertMany ?_⟩
  · exact Call.not_refuses (List.forall_mem_nil _) hadmits
  · rw [List.length_map, List.forall_mem_map]
    exact hadmits

/-- Handles from the size of the pool on have no instruction. -/
theorem get?_eq_none {id : Handle} : p.get? id = none ↔ p.size ≤ id :=
  Option.map_eq_none_iff.trans Array.getElem?_eq_none_iff

/-- Replacing an operand fails at a handle without an instruction. -/
theorem run_replace_of_none {id : Handle} (h : p.get? id = none) (operand : Operand) :
    (Pool.replace id operand).run p = .error (.unknownInstr id) p := by
  unfold Pool.replace
  simp only [EStateM.run_bind, EStateM.run_get, h]
  rfl

/-- At an instruction, replacing checks the operand and its jump before anything is changed. -/
theorem run_replace_of_some {id : Handle} {old : Instr} (h : p.get? id = some old)
    (operand : Operand) :
    (Pool.replace id operand).run p = (do
      let _ ← guarded (Instr.new? old.opcode operand)
      guarded (checkTarget p.size operand)
      set (((p.unlink id).setOperand id operand).link id) : PoolM Unit).run p := by
  unfold Pool.replace
  simp only [EStateM.run_bind, EStateM.run_get, h]

/-- Replacing an operand fails for the reasons of such a call. -/
theorem failsFor_replace (id : Handle) (operand : Operand) :
    FailsFor ((Call.replace id operand).Refuses p) (Call.replace id operand).run p := by
  cases hold : p.get? id with
  | none =>
    -- Without an instruction there is no opcode, and nothing is wanted that could be misfit.
    exact .inl ⟨_, .unknown List.mem_cons_self (get?_eq_none.1 hold),
      run_replace_of_none hold operand⟩
  | some old =>
    have hwanted : (Call.replace id operand).wanted p = [(old.opcode, operand)] := by
      rw [Call.wanted, hold]
      rfl
    have hmem : (old.opcode, operand) ∈ (Call.replace id operand).wanted p := by simp [hwanted]
    show FailsFor _ (Pool.replace id operand) p
    unfold FailsFor
    rw [run_replace_of_some hold]
    refine failsFor_guarded (p := p) (fun e he => ?_) fun i hi => ?_
    · obtain ⟨hmisfit, rfl⟩ := new?_eq_error.1 he
      exact .misfit hmem hmisfit
    refine failsFor_guarded (p := p) (fun e he => ?_) fun _ hcheck => ?_
    · obtain ⟨t, rfl, hout, rfl⟩ := checkTarget_eq_error.1 he
      exact .astray hmem hout
    have hadmits : Admits p.size ⟨old.opcode, operand⟩ :=
      ⟨(new?_eq_ok.1 hi).1, checkTarget_eq_ok.1 hcheck⟩
    refine .inr ⟨fun e => ?_, _, _, rfl, .replace hold hadmits⟩
    apply Call.not_refuses
    · exact List.forall_mem_singleton.2 (lt_size_of_get? hold)
    · rw [hwanted]
      exact List.forall_mem_singleton.2 hadmits

/-- Stealing fails for the reasons of such a call. -/
theorem failsFor_steal (thief victim : Handle) :
    FailsFor ((Call.steal thief victim).Refuses p) (Call.steal thief victim).run p := by
  refine failsFor_guarded (p := p) (fun e he => ?_) fun _ hthief => ?_
  · obtain ⟨hout, rfl⟩ := checkBelow_eq_error.1 he
    exact .unknown List.mem_cons_self hout
  refine failsFor_guarded (p := p) (fun e he => ?_) fun _ hvictim => .inr ⟨fun e => ?_, ?_⟩
  · obtain ⟨hout, rfl⟩ := checkBelow_eq_error.1 he
    exact .unknown (List.mem_cons_of_mem _ List.mem_cons_self) hout
  · refine Call.not_refuses (List.forall_mem_cons.2 ⟨checkBelow_eq_ok.1 hthief, ?_⟩)
      (List.forall_mem_nil _)
    exact List.forall_mem_singleton.2 (checkBelow_eq_ok.1 hvictim)
  · by_cases hne : thief ≠ victim
    · exact ⟨_, _, by rw [if_pos hne]; rfl, .steal (checkBelow_eq_ok.1 hthief)⟩
    · exact ⟨_, _, by rw [if_neg hne]; rfl, .stealOwn⟩

/-- **Verdicts.** A call fails for one of its reasons, and changes nothing then, or there is
    none. -/
theorem Call.failsFor (c : Call) (p : Pool) : FailsFor (c.Refuses p) c.run p := by
  cases c with
  | insert opcode operand => exact failsFor_insert opcode operand
  | insertMany instrs => exact failsFor_insertMany instrs
  | replace id operand => exact failsFor_replace id operand
  | steal thief victim => exact failsFor_steal thief victim

/-- An action fails and leaves the pool as it was, or succeeds with a change. -/
def FailsOrChanges {α : Type} (m : PoolM α) (p : Pool) : Prop :=
  (∃ e, m.run p = .error e p) ∨ ∃ a q, m.run p = .ok a q ∧ Change p q

/-- A call fails and leaves the pool as it was, or succeeds with a change. -/
theorem Call.failsOrChanges (c : Call) (p : Pool) : FailsOrChanges c.run p := by
  rcases c.failsFor p with ⟨e, -, hrun⟩ | ⟨-, hchange⟩
  · exact .inl ⟨e, hrun⟩
  · exact .inr hchange

/-! ### What calls leave -/

/-- The pool that a call leaves, whether it fails or not. -/
def Call.after (p : Pool) (c : Call) : Pool :=
  match c.run.run p with
  | .ok _ q => q
  | .error _ q => q

/-- A call that fails leaves the pool as it was. -/
theorem Call.run_of_error {c : Call} (h : c.run.run p = .error e q) : q = p := by
  rcases c.failsOrChanges p with ⟨e', hrun⟩ | ⟨a, q', hrun, -⟩
  · rw [hrun] at h
    cases h
    rfl
  · rw [hrun] at h
    cases h

/-- A call keeps a pool consistent, whether it fails or not. -/
theorem Call.consistent_after (h : p.Consistent) (c : Call) : (c.after p).Consistent := by
  unfold Call.after
  rcases c.failsOrChanges p with ⟨e, hrun⟩ | ⟨a, q, hrun, hchange⟩
  · rw [hrun]
    exact h
  · rw [hrun]
    exact hchange.consistent h

/-- The pool that calls leave, one after the other; a call that fails stops none of the others. -/
def afterCalls (p : Pool) (calls : List Call) : Pool := calls.foldl Call.after p

/-- **Calls.** A consistent pool stays consistent, whatever calls are made of it. -/
theorem Consistent.afterCalls (h : p.Consistent) (calls : List Call) :
    (p.afterCalls calls).Consistent := by
  induction calls generalizing p with
  | nil => exact h
  | cons c rest ih => exact ih (c.consistent_after h)

/-- **Back edges.** Whatever calls are made, in a pool that began empty the jumpers of every
    instruction are the instructions that jump to it, each once; jumps stay in the pool, and
    operands fit their opcodes. -/
theorem consistent_afterCalls (calls : List Call) : (afterCalls {} calls).Consistent :=
  consistent_empty.afterCalls calls

/-- A thief that jumps to its victim jumps to itself afterwards; the last call fails. -/
example :
    let p := afterCalls {} [.insert .nop .none, .insert .jumpAbsolute (.jump 0),
      .insert .popJumpIfTrue (.jump 0), .steal 1 0, .replace 2 .none]
    p.targetOf 0 = [] ∧ p.targetOf 1 = [1, 2] ∧ p.target? 1 = some 1 ∧ p.target? 2 = some 1 := by
  decide

end StackCode.Pool

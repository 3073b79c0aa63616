import StackCode.Proofs.Routine.Units
import StackCode.Transform

namespace StackCode

/-!
# Nested units

What the phase of nested units makes of a pass.

* `Pool.mapUnitsIn` — other units in the operands of some instructions.
* `Pass.Nests` — a phase that succeeds, one case for each way to deal with an instruction.
* `Pass.Nests.exists_mapM` — it transforms the distinct units one after the other; afterwards the
  instructions load the results, equal ones in place of equal units, and nothing else of the draft
  has changed.
* `Pass.exists_nests` — the phase succeeds when all nested passes do.
* `Pass.Nests.imitate` — the same draft comes of passes that imitate the nested ones.
-/

/-! ### Units in some instructions -/

namespace Pool

variable {p : Pool} {f : StoredUnit → StoredUnit} {id : Handle} {rest : List Handle}

/-- The pool with other units in the operands of the instructions `ids`. -/
def mapUnitsIn (f : StoredUnit → StoredUnit) (ids : List Handle) (p : Pool) : Pool :=
  ⟨p.slots.mapIdx fun id slot => if id ∈ ids then slot.mapUnit f else slot⟩

/-- The slots have other units in the instructions that are dealt with. -/
theorem slots_mapUnitsIn (ids : List Handle) (id : Handle) :
    (p.mapUnitsIn f ids).slots[id]? =
      (p.slots[id]?).map fun slot => if id ∈ ids then slot.mapUnit f else slot :=
  Array.getElem?_mapIdx

/-- Pools of the same slots are the same. -/
theorem ext_slots {q : Pool} (h : ∀ id : Handle, p.slots[id]? = q.slots[id]?) : p = q :=
  congrArg Pool.mk (Array.ext_getElem? h)

/-- Nothing is dealt with. -/
@[simp] theorem mapUnitsIn_nil : p.mapUnitsIn f [] = p := by
  refine ext_slots fun id => ?_
  rw [slots_mapUnitsIn]
  simp

/-- The instructions are dealt with one after the other. -/
theorem mapUnitsIn_cons (hid : id ∉ rest) :
    (p.mapUnitsIn f [id]).mapUnitsIn f rest = p.mapUnitsIn f (id :: rest) := by
  refine ext_slots fun k => ?_
  rw [slots_mapUnitsIn, slots_mapUnitsIn, slots_mapUnitsIn, Option.map_map]
  refine congrFun (congrArg _ (funext fun slot => ?_)) _
  by_cases hk : k = id
  · subst hk
    simp [hid]
  · simp [hk]

/-- When all instructions are dealt with, the pool is the one with other units. -/
theorem mapUnitsIn_eq_mapUnits {ids : List Handle} (h : ∀ id < p.slots.size, id ∈ ids) :
    p.mapUnitsIn f ids = p.mapUnits f := by
  refine ext_slots fun id => ?_
  rw [slots_mapUnitsIn, mapUnits, Array.getElem?_map]
  by_cases hid : id < p.slots.size
  · simp [h id hid]
  · rw [Array.getElem?_eq_none (Nat.le_of_not_lt hid)]
    rfl

/-! ### Loaded units -/

/-- An instruction loads a unit when its operand is that unit. -/
theorem loadedUnit?_eq_some {unit : StoredUnit} :
    Pass.loadedUnit? p id = some unit ↔
      ∃ i, p.get? id = some i ∧ i.operand = .const (.code unit) := by
  unfold Pass.loadedUnit?
  cases p.get? id with
  | none => simp
  | some i =>
    simp only [Option.map_some, Option.some.injEq, exists_eq_left']
    cases i.operand with
    | const x => cases x <;> simp
    | _ => simp

/-- What an instruction loads depends on the instruction. -/
theorem loadedUnit?_congr {q : Pool} (h : q.get? id = p.get? id) :
    Pass.loadedUnit? q id = Pass.loadedUnit? p id := by
  unfold Pass.loadedUnit?
  rw [h]

/-- An instruction that loads no unit stays as it is. -/
theorem mapUnitsIn_of_none (h : Pass.loadedUnit? p id = none) : p.mapUnitsIn f [id] = p := by
  refine ext_slots fun k => ?_
  rw [slots_mapUnitsIn]
  cases hslot : p.slots[k]? with
  | none => rfl
  | some slot =>
    rw [Option.map_some]
    by_cases hk : k ∈ [id]
    · rw [if_pos hk]
      rw [List.mem_singleton.1 hk] at hslot
      -- The operand is no unit, so that there is nothing to put another one in the place of.
      have hother : slot.instr.operand.mapUnit f = slot.instr.operand := by
        have hunit : ∀ unit, slot.instr.operand ≠ .const (.code unit) := by
          intro unit hoperand
          have hload := loadedUnit?_eq_some.2 ⟨slot.instr, by rw [get?, hslot]; rfl, hoperand⟩
          rw [h] at hload
          cases hload
        cases hoperand : slot.instr.operand with
        | const x =>
          cases x with
          | code unit => exact absurd hoperand (hunit unit)
          | _ => rfl
        | _ => rfl
      rw [Slot.mapUnit, Instr.mapUnit, hother]
    · rw [if_neg hk]

/-- An instruction that loads a unit loads the other one. -/
theorem mapUnitsIn_of_some {unit : StoredUnit} (h : Pass.loadedUnit? p id = some unit) :
    p.mapUnitsIn f [id] = p.setOperand id (.const (.code (f unit))) := by
  obtain ⟨i, hi, hoperand⟩ := loadedUnit?_eq_some.1 h
  refine ext_slots fun k => ?_
  rw [slots_mapUnitsIn, setOperand, Array.getElem?_modify]
  by_cases hk : id = k
  · subst hk
    rw [if_pos rfl]
    obtain ⟨slot, hslot, rfl⟩ := Option.map_eq_some_iff.1 hi
    rw [hslot, Option.map_some, Option.map_some, if_pos (List.mem_singleton.2 rfl), Slot.mapUnit,
      Instr.mapUnit, hoperand]
    rfl
  · rw [if_neg hk]
    have hnot : k ∉ [id] := fun hmem => hk (List.mem_singleton.1 hmem).symm
    simp only [if_neg hnot, Option.map_id']

/-! ### Pools with other units -/

section

variable {ids : List Handle}

/-- No instruction comes or goes. -/
@[simp] theorem size_mapUnitsIn : (p.mapUnitsIn f ids).size = p.size := Array.size_mapIdx

/-- Thieves stay. -/
theorem stolenBy_mapUnitsIn : (p.mapUnitsIn f ids).stolenBy id = p.stolenBy id := by
  rw [stolenBy, slots_mapUnitsIn, Option.bind_map, stolenBy]
  refine congrArg (fun g => p.slots[id]?.bind g) (funext fun slot => ?_)
  show (if id ∈ ids then slot.mapUnit f else slot).stolenBy = slot.stolenBy
  split <;> rfl

/-- Noted jumpers stay. -/
theorem targetOf_mapUnitsIn : (p.mapUnitsIn f ids).targetOf id = p.targetOf id := by
  rw [targetOf, slots_mapUnitsIn, Option.map_map, targetOf]
  refine congrArg (fun g => (p.slots[id]?.map g).getD []) (funext fun slot => ?_)
  show (if id ∈ ids then slot.mapUnit f else slot).targetOf = slot.targetOf
  split <;> rfl

/-- Instructions have other units if they are dealt with. -/
theorem get?_mapUnitsIn : (p.mapUnitsIn f ids).get? id =
    (p.get? id).map fun i => if id ∈ ids then i.mapUnit f else i := by
  rw [get?, slots_mapUnitsIn, Option.map_map, get?, Option.map_map]
  refine congrArg (fun g => p.slots[id]?.map g) (funext fun slot => ?_)
  show (if id ∈ ids then slot.mapUnit f else slot).instr =
    if id ∈ ids then slot.instr.mapUnit f else slot.instr
  split <;> rfl

/-- Jumps stay. -/
theorem target?_mapUnitsIn : (p.mapUnitsIn f ids).target? id = p.target? id := by
  rw [target?, get?_mapUnitsIn, Option.bind_map, target?]
  refine congrArg (fun g => (p.get? id).bind g) (funext fun i => ?_)
  show (if id ∈ ids then i.mapUnit f else i).target? = i.target?
  split
  · exact i.operand.target?_mapUnit
  · rfl

/-- Other units in some instructions keep a pool consistent. -/
theorem Consistent.mapUnitsIn (h : p.Consistent) : (p.mapUnitsIn f ids).Consistent where
  mem_targetOf a b := by rw [targetOf_mapUnitsIn, target?_mapUnitsIn, h.mem_targetOf]
  nodup b := by rw [targetOf_mapUnitsIn]; exact h.nodup b
  target_lt a t ht := by
    rw [target?_mapUnitsIn] at ht
    rw [size_mapUnitsIn]
    exact h.target_lt a t ht
  fits a i hi := by
    rw [get?_mapUnitsIn] at hi
    obtain ⟨old, hold, rfl⟩ := Option.map_eq_some_iff.1 hi
    split
    · exact (old.operand.fits_mapUnit _).trans (h.fits a old hold)
    · exact h.fits a old hold

/-- What is loaded is replaced. -/
theorem loadedUnit?_mapUnitsIn (hid : id ∈ ids) :
    Pass.loadedUnit? (p.mapUnitsIn f ids) id = (Pass.loadedUnit? p id).map f := by
  unfold Pass.loadedUnit?
  rw [get?_mapUnitsIn]
  cases p.get? id with
  | none => rfl
  | some i =>
    rw [Option.map_some, if_pos hid, Option.map_some, Option.map_some, Instr.operand_mapUnit]
    cases i.operand with
    | const x => cases x <;> rfl
    | _ => rfl

end

/-! ### Operands without jumps -/

/-- Where neither the old operand nor the new one is a jump, no notes change. -/
theorem run_replace {i : Instr} {operand : Operand} (hget : p.get? id = some i)
    (hold : i.target? = none) (hnew : operand.target? = none) :
    (replace id operand).run p =
      if operand.fits i.opcode.operandClass then .ok () (p.setOperand id operand)
      else .error (.operandMismatch i.opcode operand.kind) p := by
  have hunlink : p.unlink id = p := by
    rw [unlink, target?, hget, Option.bind_some, hold]
  have hlink : (p.setOperand id operand).link id = p.setOperand id operand := by
    rw [link, target?, get?_setOperand, if_pos rfl, hget, Option.map_some, Option.bind_some,
      Instr.target?, hnew]
  unfold replace
  simp only [EStateM.run_bind, EStateM.run_get, hget, Instr.new?, checkTarget, hnew, hunlink, hlink]
  by_cases hfits : operand.fits i.opcode.operandClass = true
  · rw [if_pos hfits, if_pos hfits]
    rfl
  · rw [if_neg hfits, if_neg hfits]
    rfl

end Pool

/-! ### The phase -/

namespace Pass

variable {σ : Type} {inner : NestedTransform σ} {source : Encoding}
  {known : List (StoredUnit × StoredUnit)} {ids : List Handle} {p q : Pass σ} {id : Handle}
  {unit result : StoredUnit}

/-- The pass in which an instruction loads another unit. -/
def setUnit (id : Handle) (result : StoredUnit) (p : Pass σ) : Pass σ :=
  { p with draft := { p.draft with
    pool := p.draft.pool.setOperand id (.const (.code result)) } }

/-- The instruction has an operand that fits its opcode. -/
def FitsAt (p : Pass σ) (id : Handle) : Prop :=
  ∀ i, p.draft.pool.get? id = some i → i.operand.fits i.opcode.operandClass = true

/-- To replace a unit that an instruction loads is to set it, if the instruction loads constants
    at all. -/
theorem run_replaceUnit (h : loadedUnit? p.draft.pool id = some unit) :
    (liftPool (Pool.replace id (.const (.code result)))).run p = .ok () q ↔
      p.FitsAt id ∧ p.setUnit id result = q := by
  obtain ⟨i, hi, hoperand⟩ := Pool.loadedUnit?_eq_some.1 h
  -- One unit fits where another does, and neither of them is a jump.
  have hfits : (Operand.const (.code result)).fits i.opcode.operandClass =
      i.operand.fits i.opcode.operandClass := by
    rw [hoperand]
    cases i.opcode.operandClass <;> rfl
  have hold : i.target? = none := by
    rw [Instr.target?, hoperand]
    rfl
  have hnew : (Operand.const (.code result)).target? = none := rfl
  have hrun := Pool.run_replace hi hold hnew
  rw [hfits] at hrun
  show liftPool _ p = _ ↔ _
  unfold liftPool onPool
  rw [hrun]
  by_cases hfit : i.operand.fits i.opcode.operandClass = true
  · rw [if_pos hfit]
    constructor
    · intro h
      cases h
      refine ⟨fun j hj => ?_, rfl⟩
      rw [hi] at hj
      cases hj
      exact hfit
    · rintro ⟨-, rfl⟩
      rfl
  · rw [if_neg hfit]
    constructor
    · intro h
      cases h
    · rintro ⟨hall, -⟩
      exact absurd (hall i hi) hfit

/-- An action of the transformer succeeds in a pass as it does in its world. -/
theorem run_liftWorld_eq_ok {α : Type} {act : TransformM σ α} {a : α} :
    (liftWorld act).run p = .ok a q ↔
      ∃ world, act.run p.world = .ok a world ∧ { p with world := world } = q := by
  show liftWorld act p = _ ↔ _
  unfold liftWorld onWorld
  cases act.run p.world with
  | ok b world =>
    constructor
    · intro h
      cases h
      exact ⟨world, rfl, rfl⟩
    · rintro ⟨_, h, rfl⟩
      cases h
      rfl
  | error e world =>
    constructor
    · intro h
      cases h
    · rintro ⟨_, h, -⟩
      cases h

/-- A phase of nested units that succeeds.  Instructions that load no unit are skipped.  A unit
    that is known has its result already; a fresh one is transformed, and is known from then on. -/
inductive Nests (inner : NestedTransform σ) (source : Encoding) :
    List (StoredUnit × StoredUnit) → List Handle → Pass σ → Pass σ → Prop where
  | nil {known : List (StoredUnit × StoredUnit)} {p : Pass σ} : Nests inner source known [] p p
  | skip {known : List (StoredUnit × StoredUnit)} {id : Handle} {rest : List Handle}
      {p q : Pass σ} (hload : loadedUnit? p.draft.pool id = none)
      (hrest : Nests inner source known rest p q) : Nests inner source known (id :: rest) p q
  | again {known : List (StoredUnit × StoredUnit)} {id : Handle} {rest : List Handle}
      {p q : Pass σ} {unit result : StoredUnit} (hload : loadedUnit? p.draft.pool id = some unit)
      (hfit : p.FitsAt id) (hknown : known.lookup unit = some result)
      (hrest : Nests inner source known rest (p.setUnit id result) q) :
      Nests inner source known (id :: rest) p q
  | fresh {known : List (StoredUnit × StoredUnit)} {id : Handle} {rest : List Handle}
      {p q : Pass σ} {unit result : StoredUnit} {world : World σ}
      (hload : loadedUnit? p.draft.pool id = some unit) (hfit : p.FitsAt id)
      (hknown : known.lookup unit = none)
      (hrun : (inner unit source).run p.world = .ok result world)
      (hrest : Nests inner source ((unit, result) :: known) rest
        (setUnit id result { p with world := world }) q) :
      Nests inner source known (id :: rest) p q

/-- A phase that succeeds deals with one instruction after the other. -/
theorem nests_of_run (h : (nestedPhase inner source known ids).run p = .ok () q) :
    Nests inner source known ids p q := by
  induction ids generalizing known p with
  | nil =>
    obtain ⟨-, rfl⟩ := run_pure_eq_ok.1 h
    exact .nil
  | cons id rest ih =>
    rw [nestedPhase] at h
    obtain ⟨_, _, hget, h⟩ := run_bind_eq_ok.1 h
    cases hget
    -- The cases are those of the phase: no unit, a unit that was met before, or a new one.
    cases hload : loadedUnit? p.draft.pool id with
    | none =>
      rw [hload] at h
      exact .skip hload (ih h)
    | some unit =>
      rw [hload] at h
      cases hknown : known.lookup unit with
      | some result =>
        simp only [hknown] at h
        obtain ⟨_, p', hreplace, h⟩ := run_bind_eq_ok.1 h
        obtain ⟨hfit, rfl⟩ := (run_replaceUnit hload).1 hreplace
        exact .again hload hfit hknown (ih h)
      | none =>
        simp only [hknown] at h
        obtain ⟨result, p', hinner, h⟩ := run_bind_eq_ok.1 h
        obtain ⟨world, hrun, rfl⟩ := run_liftWorld_eq_ok.1 hinner
        obtain ⟨_, p'', hreplace, h⟩ := run_bind_eq_ok.1 h
        obtain ⟨hfit, rfl⟩ := (run_replaceUnit (p := { p with world := world }) hload).1 hreplace
        exact .fresh hload hfit hknown hrun (ih h)

/-- When every instruction can be dealt with, the phase succeeds. -/
theorem Nests.run_eq_ok (h : Nests inner source known ids p q) :
    (nestedPhase inner source known ids).run p = .ok () q := by
  induction h with
  | nil => rfl
  | @skip known id rest p q hload hrest ih =>
    rw [nestedPhase]
    exact run_bind_eq_ok.2 ⟨p, p, rfl, by rw [hload]; exact ih⟩
  | @again known id rest p q unit result hload hfit hknown hrest ih =>
    rw [nestedPhase]
    refine run_bind_eq_ok.2 ⟨p, p, rfl, ?_⟩
    simp only [hload, hknown]
    exact run_bind_eq_ok.2 ⟨(), _, (run_replaceUnit hload).2 ⟨hfit, rfl⟩, ih⟩
  | @fresh known id rest p q unit result world hload hfit hknown hrun hrest ih =>
    rw [nestedPhase]
    refine run_bind_eq_ok.2 ⟨p, p, rfl, ?_⟩
    simp only [hload, hknown]
    refine run_bind_eq_ok.2 ⟨result, _, run_liftWorld_eq_ok.2 ⟨world, hrun, rfl⟩, ?_⟩
    exact run_bind_eq_ok.2 ⟨(), _,
      (run_replaceUnit (p := { p with world := world }) hload).2 ⟨hfit, rfl⟩, ih⟩

/-! #### Fresh units -/

/-- The units that the instructions load and that are not known, each of them where it occurs
    first. -/
def freshUnits (known : List (StoredUnit × StoredUnit)) (pool : Pool) (ids : List Handle) :
    List StoredUnit :=
  ((ids.filterMap (loadedUnit? pool)).filter fun unit => (known.lookup unit).isNone).eraseDups

section

variable {pool : Pool} {rest : List Handle}

/-- Which units are fresh depends on what the instructions load. -/
theorem freshUnits_congr {pool' : Pool}
    (h : ∀ id ∈ ids, loadedUnit? pool' id = loadedUnit? pool id) :
    freshUnits known pool' ids = freshUnits known pool ids := by
  rw [freshUnits, freshUnits, List.filterMap_congr h]

/-- An instruction that loads no unit adds none. -/
theorem freshUnits_cons_of_none (h : loadedUnit? pool id = none) :
    freshUnits known pool (id :: rest) = freshUnits known pool rest := by
  rw [freshUnits, List.filterMap_cons_none h, freshUnits]

/-- A unit that is known is not fresh. -/
theorem freshUnits_cons_of_known (h : loadedUnit? pool id = some unit)
    (hknown : known.lookup unit = some result) :
    freshUnits known pool (id :: rest) = freshUnits known pool rest := by
  rw [freshUnits, List.filterMap_cons_some h, List.filter_cons_of_neg (by simp [hknown]), freshUnits]

/-- A result that becomes known is no result of other units. -/
theorem lookup_cons_of_ne {other : StoredUnit} (h : other ≠ unit) :
    ((unit, result) :: known).lookup other = known.lookup other := by
  rw [List.lookup_cons, beq_false_of_ne h]

/-- A unit that is not known comes first, and is known behind it. -/
theorem freshUnits_cons_of_new (h : loadedUnit? pool id = some unit)
    (hnew : known.lookup unit = none) :
    freshUnits known pool (id :: rest) = unit :: freshUnits ((unit, result) :: known) pool rest := by
  rw [freshUnits, List.filterMap_cons_some h, List.filter_cons_of_pos (by simp [hnew]),
    List.eraseDups_cons, List.filter_filter, freshUnits]
  refine congrArg (fun units => unit :: units.eraseDups) (List.filter_congr fun other _ => ?_)
  by_cases hne : other = unit
  · simp [hne]
  · simp [hne, lookup_cons_of_ne hne]

end

/-- **Nested units.** A phase of nested units transforms the fresh ones, one after the other.
    Afterwards every instruction that has loaded a unit loads `f` of it, which is what is known of
    the unit or the result of its pass.  Nothing else of the draft has changed. -/
theorem Nests.exists_mapM (h : Nests inner source known ids p q) (hids : ids.Nodup) :
    ∃ f : StoredUnit → StoredUnit,
      (∀ unit result, known.lookup unit = some result → f unit = result) ∧
      ((freshUnits known p.draft.pool ids).mapM (inner · source)).run p.world =
        .ok ((freshUnits known p.draft.pool ids).map f) q.world ∧
      q.draft = { p.draft with pool := p.draft.pool.mapUnitsIn f ids } := by
  -- What the instructions behind the first one load does not depend on it.
  have hbehind : ∀ {rest : List Handle} {id : Handle} {unit : StoredUnit} {p : Pass σ}
      {known : List (StoredUnit × StoredUnit)}, id ∉ rest →
        freshUnits known (p.setUnit id unit).draft.pool rest =
          freshUnits known p.draft.pool rest := by
    intro rest id unit p known hid
    refine freshUnits_congr fun id' hid' => Pool.loadedUnit?_congr ?_
    show (p.draft.pool.setOperand id _).get? id' = p.draft.pool.get? id'
    rw [Pool.get?_setOperand, if_neg (ne_of_mem_of_not_mem hid' hid).symm]
  induction h with
  | @nil known p =>
    refine ⟨fun unit => (known.lookup unit).getD default, fun unit result hknown => ?_, rfl, ?_⟩
    · dsimp only
      rw [hknown, Option.getD_some]
    · rw [Pool.mapUnitsIn_nil]
  | @skip known id rest p q hload hrest ih =>
    obtain ⟨hid, hrest⟩ := List.nodup_cons.1 hids
    obtain ⟨f, hknown, hruns, hdraft⟩ := ih hrest
    refine ⟨f, hknown, ?_, ?_⟩
    · rwa [freshUnits_cons_of_none hload]
    · rw [hdraft, ← Pool.mapUnitsIn_cons hid, Pool.mapUnitsIn_of_none hload]
  | @again known id rest p q unit result hload hfit hresult hrest ih =>
    obtain ⟨hid, hrest⟩ := List.nodup_cons.1 hids
    obtain ⟨f, hknown, hruns, hdraft⟩ := ih hrest
    refine ⟨f, hknown, ?_, ?_⟩
    · rw [hbehind hid] at hruns
      rwa [freshUnits_cons_of_known hload hresult]
    · rw [hdraft, ← Pool.mapUnitsIn_cons hid, Pool.mapUnitsIn_of_some hload,
        hknown unit result hresult]
      rfl
  | @fresh known id rest p q unit result world hload hfit hnew hrun hrest ih =>
    obtain ⟨hid, hrest⟩ := List.nodup_cons.1 hids
    obtain ⟨f, hknown, hruns, hdraft⟩ := ih hrest
    have hresult : f unit = result := hknown unit result List.lookup_cons_self
    refine ⟨f, fun other result' hother => ?_, ?_, ?_⟩
    · refine hknown other result' ?_
      rwa [lookup_cons_of_ne]
      rintro rfl
      rw [hnew] at hother
      cases hother
    · rw [hbehind hid] at hruns
      rw [freshUnits_cons_of_new hload hnew, List.map_cons, hresult]
      exact run_mapM_cons_eq_ok.2 ⟨result, world, _, hrun, hruns, rfl⟩
    · rw [hdraft, ← Pool.mapUnitsIn_cons hid, Pool.mapUnitsIn_of_some hload, hresult]
      rfl

/-- So what is loaded is what is known, or the result of a nested pass from some world on. -/
theorem Nests.exists_map (h : Nests inner source known ids p q) (hids : ids.Nodup) :
    ∃ f : StoredUnit → StoredUnit,
      (∀ unit result, known.lookup unit = some result → f unit = result) ∧
      (∀ id ∈ ids, ∀ unit, loadedUnit? p.draft.pool id = some unit →
        (known.lookup unit).isSome = true ∨
          ∃ world world', (inner unit source).run world = .ok (f unit) world') ∧
      q.draft = { p.draft with pool := p.draft.pool.mapUnitsIn f ids } := by
  obtain ⟨f, hknown, hruns, hdraft⟩ := h.exists_mapM hids
  refine ⟨f, hknown, fun id hid unit hload => ?_, hdraft⟩
  cases hlookup : known.lookup unit with
  | some result => exact .inl rfl
  | none =>
    refine .inr (exists_run_of_mapM hruns unit (List.mem_eraseDups.2 (List.mem_filter.2 ⟨?_, ?_⟩)))
    · exact List.mem_filterMap.2 ⟨id, hid, hload⟩
    · rw [hlookup]
      rfl

/-- The phase succeeds when all nested passes do, from whatever world they start. -/
theorem exists_nests (hids : ids.Nodup) (hfits : ∀ id ∈ ids, p.FitsAt id)
    (hinner : ∀ id ∈ ids, ∀ unit, loadedUnit? p.draft.pool id = some unit →
      ∀ world, ∃ result world', (inner unit source).run world = .ok result world') :
    ∃ q, Nests inner source known ids p q := by
  induction ids generalizing known p with
  | nil => exact ⟨p, .nil⟩
  | cons id rest ih =>
    obtain ⟨hid, hrest⟩ := List.nodup_cons.1 hids
    obtain ⟨hfit, hfits⟩ := List.forall_mem_cons.1 hfits
    obtain ⟨hfirst, hinner⟩ := List.forall_mem_cons.1 hinner
    -- The other instructions are the same after the first one has been dealt with.
    have hbehind : ∀ (p' : Pass σ) (result : StoredUnit)
        (known : List (StoredUnit × StoredUnit)), p'.draft = p.draft →
          ∃ q, Nests inner source known rest (p'.setUnit id result) q := by
      intro p' result known hdraft
      have hget : ∀ id' ∈ rest,
          (p'.setUnit id result).draft.pool.get? id' = p.draft.pool.get? id' := by
        intro id' hid'
        show (p'.draft.pool.setOperand id _).get? id' = _
        rw [hdraft, Pool.get?_setOperand, if_neg (ne_of_mem_of_not_mem hid' hid).symm]
      refine ih hrest (fun id' hid' i hi => hfits id' hid' i (hget id' hid' ▸ hi)) ?_
      intro id' hid' unit hunit
      exact hinner id' hid' unit (Pool.loadedUnit?_congr (hget id' hid') ▸ hunit)
    cases hload : loadedUnit? p.draft.pool id with
    | none =>
      obtain ⟨q, hq⟩ : ∃ q, Nests inner source known rest p q := ih hrest hfits hinner
      exact ⟨q, .skip hload hq⟩
    | some unit =>
      cases hknown : known.lookup unit with
      | some result =>
        obtain ⟨q, hq⟩ := hbehind p result known rfl
        exact ⟨q, .again hload hfit hknown hq⟩
      | none =>
        obtain ⟨result, world, hrun⟩ := hfirst unit hload p.world
        obtain ⟨q, hq⟩ :=
          hbehind { p with world := world } result ((unit, result) :: known) rfl
        exact ⟨q, .fresh hload hfit hknown hrun hq⟩

/-- Opcodes stay as they are, and so does all of the draft but its pool. -/
theorem Nests.opcode_eq (h : Nests inner source known ids p q) :
    (∀ id, (q.draft.pool.get? id).map (·.opcode) = (p.draft.pool.get? id).map (·.opcode)) ∧
      q.draft = { p.draft with pool := q.draft.pool } := by
  -- Another unit in an operand leaves all opcodes as they are.
  have hset : ∀ (p : Pass σ) (k id : Handle) (result : StoredUnit),
      ((p.setUnit k result).draft.pool.get? id).map (·.opcode) =
        (p.draft.pool.get? id).map (·.opcode) := by
    intro p k id result
    show ((p.draft.pool.setOperand k _).get? id).map _ = _
    rw [Pool.get?_setOperand]
    split
    · rw [Option.map_map]
      rfl
    · rfl
  induction h with
  | nil => exact ⟨fun id => rfl, rfl⟩
  | skip hload hrest ih => exact ih
  | again hload hfit hknown hrest ih =>
    obtain ⟨hopcodes, hdraft⟩ := ih
    exact ⟨fun id => (hopcodes id).trans (hset _ _ id _), hdraft⟩
  | @fresh known id rest p q unit result world hload hfit hknown hrun hrest ih =>
    obtain ⟨hopcodes, hdraft⟩ := ih
    exact ⟨fun id' => (hopcodes id').trans (hset { p with world := world } id id' result), hdraft⟩

/-- What the passes `inner` make of a unit in some world, the passes `inner'` make of it in every
    world. -/
def Imitates (inner' inner : NestedTransform σ) : Prop :=
  ∀ unit e world result world', (inner unit e).run world = .ok result world' →
    ∀ w, ∃ w', (inner' unit e).run w = .ok result w'

/-- With passes that imitate the nested ones, the phase has the same draft. -/
theorem Nests.imitate {inner' : NestedTransform σ} (h : Nests inner source known ids p q)
    (himitate : Imitates inner' inner) {p' : Pass σ} (hdraft : p'.draft = p.draft) :
    ∃ q', Nests inner' source known ids p' q' ∧ q'.draft = q.draft := by
  have hset : ∀ {p p' : Pass σ} {id : Handle} {result : StoredUnit}, p'.draft = p.draft →
      (p'.setUnit id result).draft = (p.setUnit id result).draft := by
    intro p p' id result hdraft
    unfold setUnit
    rw [hdraft]
  induction h generalizing p' with
  | nil => exact ⟨p', .nil, hdraft⟩
  | skip hload hrest ih =>
    obtain ⟨q', hq', heq⟩ := ih hdraft
    exact ⟨q', .skip (by rw [hdraft]; exact hload) hq', heq⟩
  | again hload hfit hknown hrest ih =>
    obtain ⟨q', hq', heq⟩ := ih (hset hdraft)
    exact ⟨q', .again (by rw [hdraft]; exact hload) (by rw [FitsAt, hdraft]; exact hfit) hknown hq',
      heq⟩
  | @fresh known id rest p q unit result world hload hfit hknown hrun hrest ih =>
    -- The imitation may come to another world, which the draft does not depend on.
    obtain ⟨world', hrun'⟩ := himitate _ _ _ _ _ hrun p'.world
    have hnext : (setUnit id result { p' with world := world' }).draft =
        (setUnit id result { p with world := world }).draft := hset hdraft
    obtain ⟨q', hq', heq⟩ := ih hnext
    exact ⟨q', .fresh (by rw [hdraft]; exact hload) (by rw [FitsAt, hdraft]; exact hfit) hknown hrun'
      hq', heq⟩

end Pass

end StackCode

import StackCode.Proofs.Pool.BackEdges
import StackCode.Proofs.Routine.RoundTrip

namespace StackCode

/-!
# Other units in the same places

What becomes of a unit when the units among its constants are replaced by others.

* `StoredUnit.mapUnits`, `Routine.mapUnits` — other units in the table of constants, and in the
  operands of instructions.  Units within tuples stay as they are.
* `Routine.AllLive` — then the units in operands are all that count.
* `Routine.load?_mapUnits` — the one is loaded as the other.
* `Routine.exists_reload` — what was loaded and stored again, under whatever encoding, is loaded as
  the same routine.
* `Routine.Alike.getElem?_operands` — alike routines have the same constants at every position.
-/

variable {f : StoredUnit → StoredUnit}

/-! ### Maps -/

/-- The constant with another unit in place of a unit. -/
def Const.mapUnit (f : StoredUnit → StoredUnit) : Const → Const
  | .code unit => .code (f unit)
  | c => c

/-- The operand with another unit in place of a unit. -/
def Operand.mapUnit (f : StoredUnit → StoredUnit) : Operand → Operand
  | .const c => .const (c.mapUnit f)
  | o => o

/-- The target of a jump is no unit. -/
theorem Operand.target?_mapUnit (o : Operand) : (o.mapUnit f).target? = o.target? := by
  cases o <;> rfl

/-- An operand fits the same classes, whatever unit it holds. -/
theorem Operand.fits_mapUnit (o : Operand) (c : OperandClass) :
    (o.mapUnit f).fits c = o.fits c := by
  cases o
  case const x => cases c <;> rfl
  all_goals rfl

/-- Only the unit of the operand itself is replaced. -/
theorem Operand.mapUnit_congr {g : StoredUnit → StoredUnit} {o : Operand}
    (h : ∀ unit, o = .const (.code unit) → f unit = g unit) : o.mapUnit f = o.mapUnit g := by
  cases o with
  | const x =>
    cases x with
    | code unit =>
      show Operand.const (.code (f unit)) = .const (.code (g unit))
      rw [h unit rfl]
    | _ => rfl
  | _ => rfl

/-- An operand with its own unit in place of it stays as it is. -/
theorem Operand.mapUnit_id (o : Operand) : o.mapUnit id = o := by
  cases o with
  | const x => cases x <;> rfl
  | _ => rfl

/-- A mapped constant is a unit, mapped, or a constant that is none and stays as it is. -/
theorem Operand.mapUnit_eq_const {o : Operand} {x : Const} (h : o.mapUnit f = .const x) :
    (∃ unit, o = .const (.code unit) ∧ x = .code (f unit)) ∨ x.code? = .none ∧ o = .const x := by
  cases o with
  | const y =>
    cases y with
    | code unit =>
      cases h
      exact .inl ⟨unit, rfl, rfl⟩
    | _ =>
      cases h
      exact .inr ⟨rfl, rfl⟩
  | _ => cases h

/-- The instruction with another unit in place of a unit. -/
def Instr.mapUnit (f : StoredUnit → StoredUnit) (i : Instr) : Instr :=
  { i with operand := i.operand.mapUnit f }

/-- The opcode stays. -/
@[simp] theorem Instr.opcode_mapUnit (i : Instr) : (i.mapUnit f).opcode = i.opcode := rfl

/-- The operand has the other unit. -/
@[simp] theorem Instr.operand_mapUnit (i : Instr) :
    (i.mapUnit f).operand = i.operand.mapUnit f := rfl

/-- The slot with another unit in place of a unit. -/
def Slot.mapUnit (f : StoredUnit → StoredUnit) (s : Slot) : Slot :=
  { s with instr := s.instr.mapUnit f }

/-- The pool with other units in the operands of its instructions. -/
def Pool.mapUnits (f : StoredUnit → StoredUnit) (p : Pool) : Pool := ⟨p.slots.map (Slot.mapUnit f)⟩

/-- The routine with other units in the operands of its instructions. -/
def Routine.mapUnits (f : StoredUnit → StoredUnit) (c : Routine) : Routine :=
  { c with pool := c.pool.mapUnits f }

/-- The unit with other units in its table of constants. -/
def StoredUnit.mapUnits (f : StoredUnit → StoredUnit) (unit : StoredUnit) : StoredUnit :=
  { unit with consts := unit.consts.map (Const.mapUnit f) }

/-! ### Pools -/

namespace Pool

/-- The instructions of the pool have the other units, under the same handles. -/
theorem get?_mapUnits (p : Pool) (id : Handle) :
    (p.mapUnits f).get? id = (p.get? id).map (Instr.mapUnit f) := by
  unfold mapUnits get?
  rw [Array.getElem?_map, Option.map_map, Option.map_map]
  rfl

/-- Units may be replaced before or after an instruction is stored. -/
theorem push_mapUnits (p : Pool) (i : Instr) :
    (p.mapUnits f).push (i.mapUnit f) = (p.push i).mapUnits f := by
  unfold mapUnits push
  rw [Array.map_push]
  rfl

/-- Notes beside the instructions do not depend on units. -/
theorem addJumper_mapUnits (p : Pool) (id jumper : Handle) :
    (p.mapUnits f).addJumper id jumper = (p.addJumper id jumper).mapUnits f := by
  unfold mapUnits addJumper
  refine congrArg Pool.mk (Array.ext_getElem? fun k => ?_)
  rw [Array.getElem?_modify, Array.getElem?_map, Array.getElem?_map, Array.getElem?_modify]
  by_cases hk : id = k
  · rw [if_pos hk, if_pos hk, Option.map_map, Option.map_map]
    refine congrFun (congrArg _ (funext fun slot => ?_)) _
    show (if jumper ∈ slot.targetOf then slot.mapUnit f else _) =
      Slot.mapUnit f (if jumper ∈ slot.targetOf then slot else _)
    split
    · rfl
    · rfl
  · rw [if_neg hk, if_neg hk]

/-- Jumps are noted alike, since their targets are. -/
theorem link_mapUnits (p : Pool) (id : Handle) :
    (p.mapUnits f).link id = (p.link id).mapUnits f := by
  have htarget : (p.mapUnits f).target? id = p.target? id := by
    unfold target?
    rw [get?_mapUnits, Option.bind_map]
    refine congrArg (Option.bind _) (funext fun i => ?_)
    exact Operand.target?_mapUnit i.operand
  unfold link
  rw [htarget]
  cases p.target? id with
  | none => rfl
  | some t => exact addJumper_mapUnits p t id

/-- **Pools.** The pool of instructions with other units is the pool of the instructions, with other
    units. -/
theorem ofInstrs_mapUnits (instrs : List Instr) :
    ofInstrs (instrs.map (Instr.mapUnit f)) = (ofInstrs instrs).mapUnits f := by
  have hpush : ∀ p : Pool, (instrs.map (Instr.mapUnit f)).foldl push (p.mapUnits f) =
      (instrs.foldl push p).mapUnits f := by
    induction instrs with
    | nil => exact fun _ => rfl
    | cons i rest ih =>
      intro p
      rw [List.map_cons, List.foldl_cons, List.foldl_cons, push_mapUnits]
      exact ih (p.push i)
  have hlink : ∀ (ids : List Handle) (p : Pool), ids.foldl link (p.mapUnits f) =
      (ids.foldl link p).mapUnits f := by
    intro ids
    induction ids with
    | nil => exact fun _ => rfl
    | cons id rest ih =>
      intro p
      rw [List.foldl_cons, List.foldl_cons, link_mapUnits]
      exact ih (p.link id)
  have hempty : mapUnits f {} = {} := by
    unfold mapUnits
    rw [Array.map_empty]
  unfold ofInstrs
  rw [List.length_map, ← hlink, ← hpush, hempty]

end Pool

/-! ### Routines -/

namespace Routine

variable {c c' : Routine} {unit raw : StoredUnit} {e e' : Encoding}

/-- The code has the other units, under the same handles. -/
theorem code_mapUnits (c : Routine) :
    (c.mapUnits f).code = c.code.map fun entry => (entry.1, entry.2.mapUnit f) := by
  unfold Body.code
  rw [List.map_filterMap]
  refine congrFun (congrArg _ (funext fun id => ?_)) _
  show ((c.pool.mapUnits f).get? id).map _ = ((c.pool.get? id).map _).map _
  rw [Pool.get?_mapUnits, Option.map_map, Option.map_map]
  rfl

/-- The opcodes stay. -/
@[simp] theorem opcodes_mapUnits (c : Routine) : (c.mapUnits f).opcodes = c.opcodes := by
  rw [Body.opcodes, code_mapUnits, List.map_map]
  rfl

/-- The operands have the other units. -/
theorem operands_mapUnits (c : Routine) :
    (c.mapUnits f).operands = c.operands.map (Operand.mapUnit f) := by
  rw [Body.operands, code_mapUnits, List.map_map, Body.operands, List.map_map]
  rfl

/-- Other units make no routine unsound. -/
theorem sound_mapUnits (hc : c.Sound) : (c.mapUnits f).Sound := by
  have hget : ∀ id i, (c.mapUnits f).pool.get? id = some i →
      ∃ j, c.pool.get? id = some j ∧ j.mapUnit f = i := by
    intro id i hi
    show ∃ j, c.pool.get? id = some j ∧ j.mapUnit f = i
    rw [← Option.map_eq_some_iff, ← Pool.get?_mapUnits]
    exact hi
  refine ⟨fun id hid => ?_, hc.distinct, fun id hid i hi => ?_, fun id hid i hi s hs => ?_⟩
  · obtain ⟨i, hi⟩ := hc.known id hid
    exact ⟨i.mapUnit f, (Pool.get?_mapUnits _ _).trans (by rw [hi]; rfl)⟩
  · obtain ⟨j, hj, rfl⟩ := hget id i hi
    exact (Operand.fits_mapUnit j.operand _).trans (hc.fits id hid j hj)
  · obtain ⟨j, hj, rfl⟩ := hget id i hi
    refine hc.declared id hid j hj s ?_
    rw [Instr.operand_mapUnit] at hs
    generalize j.operand = o at hs
    cases o
    case const x => cases hs
    all_goals exact hs

/-- All instructions of the pool are live. -/
def AllLive (c : Routine) : Prop := ∀ id < c.pool.slots.size, id ∈ c.instrs

/-- When all instructions are live, the units among the operands are all there are. -/
theorem mapUnits_congr {g : StoredUnit → StoredUnit} (hlive : c.AllLive)
    (h : ∀ unit, .const (.code unit) ∈ c.operands → f unit = g unit) :
    c.mapUnits f = c.mapUnits g := by
  have hslots : c.pool.slots.map (Slot.mapUnit f) = c.pool.slots.map (Slot.mapUnit g) := by
    refine Array.map_congr_left fun slot hslot => ?_
    obtain ⟨id, hid, rfl⟩ := Array.getElem_of_mem hslot
    have hget : c.pool.get? id = some c.pool.slots[id].instr := by
      rw [Pool.get?, Array.getElem?_eq_getElem hid]
      rfl
    have hoperand : c.pool.slots[id].instr.operand ∈ c.operands :=
      List.mem_map.2 ⟨_, Body.mem_code.2 ⟨hlive id hid, hget⟩, rfl⟩
    unfold Slot.mapUnit Instr.mapUnit
    rw [Operand.mapUnit_congr fun unit hunit => h unit (hunit ▸ hoperand)]
  unfold mapUnits Pool.mapUnits
  rw [hslots]

/-- A routine with its own units in place of them stays as it is. -/
theorem mapUnits_id (c : Routine) : c.mapUnits id = c := by
  have hslot : Slot.mapUnit id = id := by
    funext slot
    unfold Slot.mapUnit Instr.mapUnit
    rw [Operand.mapUnit_id]
    rfl
  unfold mapUnits Pool.mapUnits
  rw [hslot, Array.map_id]

/-! ### Loading -/

/-- With other units in its table, a unit represents the shape with those units. -/
theorem Represents.mapUnits {walked : List Located} {shape : List Instr}
    (h : Represents unit e walked shape) :
    Represents (unit.mapUnits f) e walked (shape.map (Instr.mapUnit f)) := by
  have hops : (shape.map (Instr.mapUnit f)).map (·.opcode) = shape.map (·.opcode) := by
    rw [List.map_map]
    rfl
  refine .of_stands h.walks (by rw [hops, h.opcodesOf_eq]) fun k hk hk' => ?_
  have hlt : k < shape.length := by rwa [List.length_map] at hk'
  obtain ⟨-, hstands⟩ := h.stands hk hlt
  rw [hops, List.getElem_map, Instr.opcode_mapUnit, Instr.operand_mapUnit]
  generalize shape[k].opcode.operandClass = kind at hstands ⊢
  generalize shape[k].operand = operand at hstands ⊢
  cases hstands with
  | none => exact .none
  | int => exact .int
  -- Only the table of constants changes, and the operand with it.
  | @const x hget =>
    refine .const ?_
    show (unit.consts.map (Const.mapUnit f))[walked[k].arg]? = some (x.mapUnit f)
    rw [List.getElem?_map, hget]
    rfl
  | name hget => exact .name hget
  | localVar hget => exact .localVar hget
  | freeVar hget => exact .freeVar hget
  | jumpAbs ht hoffset => exact .jumpAbs ht hoffset
  | jumpRel ht hoffset => exact .jumpRel ht hoffset

/-- **Loading.** With other units among its constants, a unit is loaded as the same routine with
    other units in its operands. -/
theorem load?_mapUnits (h : load? unit e = .ok c) :
    load? (unit.mapUnits f) e = .ok (c.mapUnits f) := by
  obtain ⟨walked, shape, lines, signature, hrep, hread, hsignature, rfl⟩ := load?_eq_ok.1 h
  refine load?_eq_ok.2 ⟨walked, _, lines, signature, Represents.mapUnits hrep, hread, hsignature, ?_⟩
  unfold loaded Routine.mapUnits
  rw [Pool.ofInstrs_mapUnits, List.length_map]
  rfl

/-- All instructions of a loaded routine are live. -/
theorem allLive_of_load (h : load? unit e = .ok c) : c.AllLive := by
  intro id hid
  obtain ⟨walked, shape, lines, signature, hrep, -, -, rfl⟩ := load?_eq_ok.1 h
  have hsize : (Pool.ofInstrs shape).size = shape.length := by
    unfold Pool.ofInstrs
    rw [Pool.size_foldl_link, Pool.size_foldl_push]
    exact Nat.zero_add _
  exact List.mem_range'_1.2 ⟨Nat.zero_le _, by rw [Nat.zero_add]; exact hsize ▸ hid⟩

/-- A routine keeps the encoding it was loaded under. -/
theorem encoding_of_load (h : load? unit e = .ok c) : c.encoding = e := by
  obtain ⟨walked, shape, lines, signature, -, -, -, rfl⟩ := load?_eq_ok.1 h
  rfl

/-- The constants that a loaded routine uses are constants of the unit. -/
theorem consts_subset_of_load (h : load? unit e = .ok c) : c.consts ⊆ unit.consts := by
  obtain ⟨walked, shape, lines, signature, hrep, -, -, rfl⟩ := load?_eq_ok.1 h
  exact fun x hx => List.take_subset _ _ ((tables_loaded hrep lines signature).1 hx)

/-! ### Storing and loading -/

/-- A loaded routine can be stored in the encoding it came with, when the size of its unit and the
    addresses of the line table are 32-bit numbers. -/
theorem exists_store_of_load (h : load? unit e = .ok c) (hunit : unit.Addressable) :
    ∃ r, c.store? { encoding := some e } = .ok r := by
  obtain ⟨walked, shape, lines, signature, hrep, hread, hsignature, rfl⟩ := load?_eq_ok.1 h
  obtain ⟨-, -, hparams⟩ := Signature.ofLayout?_eq_ok.1 hsignature
  obtain ⟨r, -, hstore, -⟩ := exists_store_loaded hrep hread hparams hunit
  exact ⟨r, hstore⟩

/-- **Reloading.** What was loaded, with distinct parameters, and stored under whatever encoding, is
    loaded as the same routine, which is stored as the same unit again. -/
theorem exists_reload (hload : load? unit e = .ok c) (hnames : c.signature.varnames.Nodup)
    (hstore : c.store? { encoding := some e' } = .ok raw) :
    ∃ c', load? raw e' = .ok c' ∧ Alike c c' ∧ c'.store? { encoding := some e' } = .ok raw := by
  obtain ⟨hc, hcounts⟩ := sound_of_load hload
  obtain ⟨walked, hrep⟩ := represents_of_store hc hstore
  obtain ⟨lines, hread, hencode⟩ := readLines_of_store hc hstore hrep c.signature
  obtain ⟨code, lineTable, hsize, hcode, -, rfl⟩ := store?_eq_ok.1 hstore
  have hflags : c.flags.has .varargs = c.signature.varargs.isSome ∧
      c.flags.has .varKeywords = c.signature.varkw.isSome := by
    obtain ⟨_, _, _, _, -, -, hsignature, rfl⟩ := load?_eq_ok.1 hload
    exact (Signature.ofLayout?_eq_ok.1 hsignature).2.1
  obtain ⟨others, hvarnames⟩ := Body.varnames_eq hnames
  -- The locals start with the parameters, since none is named twice, and the counts fit their
  -- fields.
  have hsignature : Signature.ofLayout? (UInt32.ofNat c.signature.positional.length).toNat
      (UInt32.ofNat c.signature.kwonly.length).toNat c.flags c.varnames = .ok c.signature := by
    rw [UInt32.toNat_ofNat_of_lt' hcounts.1, UInt32.toNat_ofNat_of_lt' hcounts.2]
    exact Signature.ofLayout?_eq_ok.2 ⟨⟨rfl, rfl⟩, hflags, others, hvarnames.symm⟩
  have halike : Alike c (loaded (c.stored code lineTable) e' c.shape lines c.signature) :=
    ⟨(shape_loaded hrep lines _).symm, rfl, rfl, rfl, rfl, rfl, rfl, rfl⟩
  refine ⟨_, load?_eq_ok.2 ⟨walked, c.shape, lines, c.signature, hrep, hread, hsignature, rfl⟩,
    halike, store?_eq_ok.2 ⟨code, lineTable, halike.codeSize e' ▸ hsize, ?_, hencode,
      (halike.stored code lineTable).symm⟩⟩
  exact (halike.codeBytes hc (sound_loaded hrep lines c.signature)).1 hcode

/-- Alike routines have the same constants at every position. -/
theorem Alike.getElem?_operands (h : Alike c c') (k : Nat) (x : Const) :
    c.operands[k]? = some (.const x) ↔ c'.operands[k]? = some (.const x) := by
  -- The shape of a body keeps the operands that are constants.
  have hshape : ∀ b : Body, b.operands[k]? = some (.const x) ↔
      (b.shape[k]?).map (·.operand) = some (.const x) := by
    intro b
    simp only [Body.operands, Body.shape, List.getElem?_map, Option.map_map]
    cases b.code[k]? with
    | none => simp
    | some entry =>
      simp only [Option.map_some, Option.some.injEq, Function.comp]
      cases entry.2.operand <;> simp [Body.placeOperand]
  rw [hshape, hshape, h.shape]

end Routine

end StackCode

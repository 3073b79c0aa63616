import StackCode.Proofs.Routine.Lines
import StackCode.Proofs.Signature

namespace StackCode

/-!
# Stored units

Tables are derived from operands and lines from the line map, so a stored unit is determined by the
shape, the lines and the header.  Units with other tables load as the same shape.

* `Routine.store?_eq_ok` — storing succeeds when the size is a 32-bit number and there are bytes and
  a line table, and gives the unit `Routine.stored` of them; `Routine.store?_of_size_le` says what
  becomes of larger routines.
* `Routine.represents_of_store` — what was stored represents the shape.
* `Routine.sameHeader_of_store` — a unit that was loaded keeps its header when it is stored.
* `Routine.fields_loaded` — a loaded routine has operand fields.  Its tables leave out what the unit
  repeats or does not use, so that no index outgrows its field.
-/

namespace Routine

variable {c c' : Routine} {unit : StoredUnit} {e : Encoding} {walked : List Located}
  {shape : List Instr} {lines : LineMap} {signature : Signature}

/-! ### Storing -/

/-- The stored unit of a routine with the given bytes. -/
def stored (c : Routine) (code lineTable : List UInt8) : StoredUnit where
  argcount := UInt32.ofNat c.signature.positional.length
  kwonlyargcount := UInt32.ofNat c.signature.kwonly.length
  nlocals := UInt32.ofNat c.varnames.length
  stacksize := c.stacksize
  flags := c.flags.mask
  code := code
  consts := c.consts
  names := c.names
  varnames := c.varnames
  filename := c.filename
  name := c.name
  firstlineno := c.firstlineno
  lineTable := lineTable
  freevars := c.freevars
  cellvars := c.cellvars

/-- **Storing.** A routine is stored under an encoding when its size is a 32-bit number and its
    bytes and its line table are stored. -/
theorem store?_eq_ok :
    c.store? { encoding := some e } = .ok unit ↔ ∃ code lineTable,
      c.codeSize e < UInt32.size ∧ c.codeBytes e (c.layout e) = .ok code ∧
        LineTable.encode (c.storedLines (c.layout e)) c.firstlineno e.lineFormat =
          .ok lineTable ∧
        c.stored code lineTable = unit := by
  have hplain : c.store? { encoding := some e } = c.storeAs? e >>= fun unit => .ok unit := rfl
  rw [hplain, bind_eq_ok]
  simp only [Except.ok.injEq, exists_eq_right]
  rw [storeAs?, bind_eq_ok]
  simp only [Body.layout?_eq_ok]
  constructor
  · rintro ⟨_, ⟨hsize, rfl⟩, h⟩
    obtain ⟨code, hcode, h⟩ := bind_eq_ok.1 h
    obtain ⟨lineTable, hlines, hunit⟩ := bind_eq_ok.1 h
    exact ⟨code, lineTable, hsize, hcode, mapError_eq_ok.1 hlines, Except.ok.inj hunit⟩
  · rintro ⟨code, lineTable, hsize, hcode, hlines, rfl⟩
    refine ⟨_, ⟨hsize, rfl⟩, bind_eq_ok.2 ⟨code, hcode, ?_⟩⟩
    exact bind_eq_ok.2 ⟨lineTable, mapError_eq_ok.2 hlines, rfl⟩

/-- A routine whose size is no 32-bit number is not stored, whatever else is wrong with it. -/
theorem store?_of_size_le (h : UInt32.size ≤ c.codeSize e) :
    ∃ size, UInt32.size ≤ size ∧ c.store? { encoding := some e } = .error (.tooLarge size) := by
  cases hlayout : c.layout? e with
  | ok placed => exact absurd (Body.layout?_eq_ok.1 hlayout).1 (Nat.not_lt.2 h)
  | error err =>
    obtain ⟨-, size, hsize, rfl⟩ := Body.layout?_eq_error hlayout
    refine ⟨size, hsize, bind_eq_error.2 (.inl (bind_eq_error.2 (.inl hlayout)))⟩

/-- The bytes of a sound routine represent its shape. -/
theorem represents_of_store (hc : c.Sound) (h : c.store? { encoding := some e } = .ok unit) :
    ∃ walked, Represents unit e walked c.shape := by
  obtain ⟨code, lineTable, -, hcode, -, rfl⟩ := store?_eq_ok.1 h
  obtain ⟨args, hfields, rfl⟩ := (Body.codeBytes_eq_ok hc).1 hcode
  obtain ⟨walked, hrep, -⟩ := hfields.represents
    (c.stored (Body.emitAll e c.opcodes args) lineTable) (Body.fits_shape hc)
    Body.tables_hold (by rw [Body.opcodes_shape]; rfl)
  exact ⟨walked, hrep⟩

/-- A routine has the size of a code that represents its shape. -/
theorem codeSize_of_represents (h : Represents unit e walked c.shape) :
    c.codeSize e = unit.code.length := by
  rw [Body.codeSize_eq, ← Body.opcodes_shape, ← h.opcodesOf_eq, h.walks.length_eq,
    length_opcodesOf]

/-! ### Routines of one shape -/

/-- Routines with the same opcodes and operands at every position, where jumps lead to the same
    positions, and with the same description.  Their pools, handles and lines may differ. -/
structure Alike (c c' : Routine) : Prop where
  shape : c.shape = c'.shape
  signature : c.signature = c'.signature
  cellvars : c.cellvars = c'.cellvars
  freevars : c.freevars = c'.freevars
  name : c.name = c'.name
  filename : c.filename = c'.filename
  firstlineno : c.firstlineno = c'.firstlineno
  flags : c.flags = c'.flags

/-- They have the same tables. -/
theorem Alike.tables (h : Alike c c') : c.tables = c'.tables := by
  rw [Body.tables, Body.tables, Body.consts_of_shape h.shape, Body.names_of_shape h.shape,
    Body.varnames_of_shape h.shape h.signature, h.cellvars, h.freevars]

/-- The same bytes and lines make the same unit. -/
theorem Alike.stored (h : Alike c c') (code lineTable : List UInt8) :
    c.stored code lineTable = c'.stored code lineTable := by
  rw [Routine.stored, Routine.stored, Body.consts_of_shape h.shape, Body.names_of_shape h.shape,
    Body.varnames_of_shape h.shape h.signature, Body.stacksize_of_shape h.shape, h.signature,
    h.cellvars, h.freevars, h.name, h.filename, h.firstlineno, h.flags]

/-- They have the same size. -/
theorem Alike.codeSize (h : Alike c c') (e : Encoding) : c.codeSize e = c'.codeSize e := by
  rw [Body.codeSize_eq, Body.codeSize_eq, Body.opcodes_of_shape h.shape]

/-- They have the same bytes. -/
theorem Alike.codeBytes (h : Alike c c') (hc : c.Sound) (hc' : c'.Sound) {code : List UInt8} :
    c.codeBytes e (c.layout e) = .ok code ↔ c'.codeBytes e (c'.layout e) = .ok code := by
  rw [Body.codeBytes_eq_ok hc, Body.codeBytes_eq_ok hc', h.shape, h.tables,
    Body.opcodes_of_shape h.shape]

/-! ### Headers -/

/-- What a unit says of itself beside its code, its tables and its lines. -/
structure SameHeader (unit unit' : StoredUnit) : Prop where
  argcount : unit.argcount = unit'.argcount
  kwonlyargcount : unit.kwonlyargcount = unit'.kwonlyargcount
  flags : unit.flags = unit'.flags
  name : unit.name = unit'.name
  filename : unit.filename = unit'.filename
  firstlineno : unit.firstlineno = unit'.firstlineno
  freevars : unit.freevars = unit'.freevars
  cellvars : unit.cellvars = unit'.cellvars

/-- A unit that was loaded keeps its header when it is stored, under whatever encoding. -/
theorem sameHeader_of_store {e' : Encoding} {r : StoredUnit} (hload : load? unit e = .ok c)
    (hstore : c.store? { encoding := some e' } = .ok r) : SameHeader r unit := by
  obtain ⟨walked, shape, lines, signature, -, -, hsignature, rfl⟩ := load?_eq_ok.1 hload
  obtain ⟨code, lineTable, -, -, -, rfl⟩ := store?_eq_ok.1 hstore
  obtain ⟨⟨hargcount, hkwonly⟩, -, -⟩ := Signature.ofLayout?_eq_ok.1 hsignature
  refine ⟨?_, ?_, rfl, rfl, rfl, rfl, rfl, rfl⟩
  · show UInt32.ofNat signature.positional.length = unit.argcount
    rw [hargcount, UInt32.ofNat_toNat]
  · show UInt32.ofNat signature.kwonly.length = unit.kwonlyargcount
    rw [hkwonly, UInt32.ofNat_toNat]

/-! ### Storing what was loaded -/

/-- A loaded routine has the size of the code that it was read from. -/
theorem codeSize_loaded (h : Represents unit e walked shape) (lines : LineMap)
    (signature : Signature) :
    (loaded unit e shape lines signature).codeSize e = unit.code.length := by
  have hrep : Represents unit e walked (loaded unit e shape lines signature).shape := by
    rwa [shape_loaded h]
  exact codeSize_of_represents hrep

/-- An operand of a loaded routine is what some field of the unit stands for. -/
theorem exists_stands_of_operand (h : Represents unit e walked shape) {o : Operand}
    (ho : o ∈ (loaded unit e shape lines signature).operands) (hjump : ∀ t, o ≠ .jump t) :
    ∃ k arg c, arg ≤ e.maxOperand ∧ Stands unit e (shape.map (·.opcode)) k arg c o := by
  obtain ⟨i, hi, hoperand⟩ := Body.exists_mem_shape ho
  rw [shape_loaded h] at hi
  rw [placeOperand_loaded (fun t ht => absurd ht (hjump t)) unit e lines signature] at hoperand
  obtain ⟨k, arg, harg, hstands⟩ := h.exists_stands hi
  exact ⟨k, arg, _, harg, hoperand ▸ hstands⟩

/-- **Tables of a loaded routine.** They hold nothing but what operand fields reach in the tables of
    the unit. -/
theorem tables_loaded (h : Represents unit e walked shape) (lines : LineMap)
    (signature : Signature) :
    (loaded unit e shape lines signature).consts ⊆ unit.consts.take (e.maxOperand + 1) ∧
      (loaded unit e shape lines signature).names ⊆ unit.names.take (e.maxOperand + 1) ∧
      ∀ s, Operand.localVar s ∈ (loaded unit e shape lines signature).operands →
        s ∈ unit.varnames.take (e.maxOperand + 1) := by
  refine ⟨fun c hc => ?_, fun s hs => ?_, fun s hs => ?_⟩
  · obtain ⟨k, arg, _, harg, hstands⟩ := exists_stands_of_operand h (Body.mem_consts.1 hc) nofun
    cases hstands with
    | const hget => exact Body.mem_take_of_getElem? hget (Nat.lt_succ_of_le harg)
  · obtain ⟨k, arg, _, harg, hstands⟩ := exists_stands_of_operand h (Body.mem_names.1 hs) nofun
    cases hstands with
    | name hget => exact Body.mem_take_of_getElem? hget (Nat.lt_succ_of_le harg)
  · obtain ⟨k, arg, _, harg, hstands⟩ := exists_stands_of_operand h hs nofun
    cases hstands with
    | localVar hget => exact Body.mem_take_of_getElem? hget (Nat.lt_succ_of_le harg)

/-- The index of an operand in the derived tables is within the bounds of its field, since the
    tables are no larger than what fields reach; other fields stay as they are. -/
theorem fieldAt_loaded (h : Represents unit e walked shape) (lines : LineMap)
    (hsignature : signature.varnames <+: unit.varnames) {k : Nat} (hk : k < walked.length)
    (hk' : k < shape.length) :
    ∃ arg, Body.fieldAt (loaded unit e shape lines signature).tables e (shape.map (·.opcode)) k
        shape[k] = some arg ∧ arg ≤ e.maxOperand ∧
      (walked[k].opcode.isJump = true ∨ walked[k].opcode.operandClass = .int →
        arg = walked[k].arg) := by
  obtain ⟨hop, hstands⟩ := h.stands hk hk'
  have hmax := h.arg_le hk
  have hwide := e.maxOperand_lt
  have hhold := Body.tables_hold (b := (loaded unit e shape lines signature).toBody)
  rw [shape_loaded h] at hhold
  replace hhold := hhold shape[k] (List.getElem_mem hk')
  obtain ⟨hconsts, hnames, hlocals⟩ := tables_loaded h lines signature
  rw [hop, Opcode.isJump]
  unfold Body.fieldAt
  generalize shape[k].opcode.operandClass = kind at *
  generalize shape[k].operand = operand at *
  generalize walked[k].arg = arg at *
  cases hstands with
  | none => exact ⟨0, rfl, Nat.zero_le _, by simp [OperandClass.isJump]⟩
  | int =>
    have harg : (UInt32.ofNat arg).toNat = arg := UInt32.toNat_ofNat_of_lt' (by omega)
    exact ⟨arg, congrArg some harg, hmax, fun _ => rfl⟩
  -- A derived table is no longer than the part of the unit's table that fields reach.
  | const hget =>
    have hlt := Body.indexIn_lt_of_subset hhold Body.nodup_consts hconsts
    refine ⟨_, rfl, ?_, by simp [OperandClass.isJump]⟩
    exact Nat.le_of_lt_succ (Nat.lt_of_lt_of_le hlt (List.length_take_le _ _))
  | name hget =>
    have hlt := Body.indexIn_lt_of_subset hhold Body.nodup_names hnames
    refine ⟨_, rfl, ?_, by simp [OperandClass.isJump]⟩
    exact Nat.le_of_lt_succ (Nat.lt_of_lt_of_le hlt (List.length_take_le _ _))
  | localVar hget =>
    have hlt := Body.indexIn_varnames_lt hsignature hlocals hhold
      (Body.mem_take_of_getElem? hget (Nat.lt_succ_of_le hmax))
    exact ⟨_, rfl, Nat.le_of_lt_succ hlt, by simp [OperandClass.isJump]⟩
  | freeVar hget =>
    obtain ⟨j, hj, hindex⟩ := Body.exists_idxOf?_le hget
    exact ⟨j, hindex, Nat.le_trans hj hmax, by simp [OperandClass.isJump]⟩
  | jumpAbs ht hoffset =>
    refine ⟨arg, ?_, hmax, fun _ => rfl⟩
    dsimp only
    rw [if_neg (Nat.not_le.2 ht), if_neg (by decide), hoffset]
  | jumpRel ht hoffset =>
    refine ⟨arg, ?_, hmax, fun _ => rfl⟩
    dsimp only
    rw [if_neg (Nat.not_le.2 ht), if_pos rfl, if_neg (by omega), hoffset, Nat.add_sub_cancel_left]

/-- A loaded routine has operand fields, and those of jumps and numbers are the fields of the
    unit. -/
theorem fields_loaded (h : Represents unit e walked shape) (lines : LineMap)
    (hsignature : signature.varnames <+: unit.varnames) :
    ∃ args, Body.Fields (loaded unit e shape lines signature).tables e shape args ∧
      ∀ k (hk : k < walked.length) (hk' : k < args.length),
        walked[k].opcode.isJump = true ∨ walked[k].opcode.operandClass = .int →
          args[k] = walked[k].arg := by
  have hlen := h.length_eq
  have hfield := fun k (hk : k < shape.length) =>
    fieldAt_loaded h lines hsignature (hlen ▸ hk) hk
  choose field hfield hmax hkeep using hfield
  refine ⟨List.ofFn fun i : Fin shape.length => field i i.2, ⟨by simp, ?_, ?_⟩, ?_⟩
  · intro k hk hk'
    rw [hfield k hk', List.getElem_ofFn]
  · intro arg harg
    obtain ⟨i, rfl⟩ := List.mem_ofFn.1 harg
    exact hmax i i.2
  · intro k hk hk' hclass
    rw [List.getElem_ofFn]
    exact hkeep k (hlen ▸ hk) hclass

end Routine

end StackCode

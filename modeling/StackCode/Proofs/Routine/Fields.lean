import StackCode.Proofs.Routine.Represents
import StackCode.Proofs.Routine.Shape

namespace StackCode

/-!
# Operand fields

What storing writes into the operand fields follows from the shape of a body and its tables.

* `Body.offsetOf?_layout` — instructions are placed at the offsets of their positions.
* `Body.layout?_eq_ok`, `Body.layout?_eq_error` — a layout has 32-bit offsets when its size is one.
* `Body.fieldAt` — the operand field of an instruction of a shape, by positions alone.
* `Body.Fields` — the fields of a whole shape, each within its bounds.
* `Body.codeBytes_eq_ok` — storing succeeds when there are such fields, and emits them.
* `Body.Fields.represents` — what is emitted represents the shape.
-/

namespace Body

variable {b : Body} {e : Encoding} {t : Tables}

/-! ### Layouts -/

/-- Every instruction of the code has a place. -/
@[simp] theorem length_place (offset : Nat) (code : List (Handle × Instr)) :
    (place e offset code).length = code.length := by
  induction code generalizing offset with
  | nil => rfl
  | cons entry rest ih => rw [place, List.length_cons, ih, List.length_cons]

/-- Instructions are placed at the offsets of their positions, counted from the first offset. -/
theorem getElem_place (offset : Nat) (code : List (Handle × Instr)) (k : Nat)
    (hk : k < (place e offset code).length) (hk' : k < code.length) :
    (place e offset code)[k] =
      ⟨offset + e.offsetAt (code.map (·.2.opcode)) k, code[k].1, code[k].2⟩ := by
  induction code generalizing offset k with
  | nil => cases hk'
  | cons entry rest ih =>
    cases k with
    | zero => rfl
    | succ k =>
      have hrest := ih (offset + e.width entry.2.opcode.hasArg) k
        (by simpa [place] using hk) (by simpa using hk')
      simp only [place, List.getElem_cons_succ, List.map_cons, Encoding.offsetAt_cons_succ]
      rw [hrest, Nat.add_assoc]

/-- The layout has a place for every instruction of the code. -/
@[simp] theorem length_layout : (b.layout e).length = b.code.length := length_place 0 b.code

/-- The layout counts offsets from the start of the code. -/
theorem getElem_layout (k : Nat) (hk : k < (b.layout e).length) (hk' : k < b.code.length) :
    (b.layout e)[k] = ⟨e.offsetAt b.opcodes k, b.code[k].1, b.code[k].2⟩ := by
  have h := getElem_place 0 b.code k hk hk'
  rwa [Nat.zero_add] at h

/-- Opcodes are laid out in their order. -/
theorem map_opcode_layout : (b.layout e).map (·.instr.opcode) = b.opcodes := by
  refine List.ext_getElem (by simp [opcodes]) fun k hk hk' => ?_
  have hcode : k < b.code.length := by simpa using hk
  rw [List.getElem_map, getElem_layout k (by simpa using hk) hcode]
  simp [opcodes]

/-- The offset of a handle is that of its first position in the code. -/
theorem offsetOf?_place (offset : Nat) (code : List (Handle × Instr)) (id : Handle) :
    offsetOf? (place e offset code) id =
      (code.findIdx? (·.1 = id)).map fun k => offset + e.offsetAt (code.map (·.2.opcode)) k := by
  induction code generalizing offset with
  | nil => rfl
  | cons entry rest ih =>
    unfold offsetOf? at ih ⊢
    rw [place, List.find?_cons, List.findIdx?_cons]
    by_cases h : entry.1 = id
    · simp [h]
    · simp only [h, decide_false, Bool.false_eq_true, if_false]
      rw [ih, Option.map_map]
      refine congrFun (congrArg _ (funext fun k => ?_)) _
      show _ = offset + e.offsetAt ((entry :: rest).map (·.2.opcode)) (k + 1)
      rw [List.map_cons, Encoding.offsetAt_cons_succ, Nat.add_assoc]

/-- **Places.** A live instruction is placed at the offset of its position. -/
theorem offsetOf?_layout (h : b.Sound) (id : Handle) :
    offsetOf? (b.layout e) id = (b.indexOf? id).map (e.offsetAt b.opcodes) := by
  rw [layout, offsetOf?_place, indexOf?_eq h]
  simp only [Nat.zero_add]
  rfl

/-! ### Sizes -/

/-- The widths of the code add up to the offset of its end. -/
theorem codeSize_eq : b.codeSize e = e.offsetAt b.opcodes b.opcodes.length := by
  rw [codeSize, opcodes, List.length_map]
  induction b.code with
  | nil => rfl
  | cons entry rest ih =>
    rw [List.foldr_cons, ih, List.map_cons, List.length_cons, Encoding.offsetAt_cons_succ]

/-- Instructions are placed before the end. -/
theorem offset_lt_codeSize {p : Placed} (hp : p ∈ b.layout e) : p.offset < b.codeSize e := by
  obtain ⟨k, hk, rfl⟩ := List.getElem_of_mem hp
  have hcode : k < b.code.length := by rwa [length_layout] at hk
  rw [getElem_layout k hk hcode, codeSize_eq]
  exact e.offsetAt_lt b.opcodes (by rwa [opcodes, List.length_map]) (Nat.le_refl _)

/-- **Sizes.** There is a layout of 32-bit offsets when the size is a 32-bit number. -/
theorem layout?_eq_ok {placed : List Placed} :
    b.layout? e = .ok placed ↔ b.codeSize e < UInt32.size ∧ b.layout e = placed := by
  unfold layout?
  cases hfind : ((b.layout e).map (·.offset) ++ [b.codeSize e]).find? (UInt32.size ≤ ·) with
  | none =>
    have hsize := List.find?_eq_none.1 hfind (b.codeSize e) (by simp)
    simp only [hfind, Except.ok.injEq]
    exact ⟨fun h => ⟨by simpa using hsize, h⟩, fun h => h.2⟩
  | some offset =>
    simp only [hfind]
    refine ⟨nofun, fun h => ?_⟩
    -- What was found is an offset or the end, and neither is beyond the size.
    have hlarge : UInt32.size ≤ offset := by simpa using List.find?_some hfind
    rcases List.mem_append.1 (List.mem_of_find?_eq_some hfind) with hmem | hmem
    · obtain ⟨p, hp, rfl⟩ := List.mem_map.1 hmem
      exact absurd (Nat.lt_trans (offset_lt_codeSize hp) h.1) (Nat.not_lt.2 hlarge)
    · rw [List.mem_singleton.1 hmem] at hlarge
      exact absurd h.1 (Nat.not_lt.2 hlarge)

/-- A layout fails with an offset, or else the end, that is no 32-bit number. -/
theorem layout?_eq_error {err : StoreError} (h : b.layout? e = .error err) :
    UInt32.size ≤ b.codeSize e ∧ ∃ size, UInt32.size ≤ size ∧ err = .tooLarge size := by
  constructor
  · by_contra hsize
    rw [layout?_eq_ok.2 ⟨Nat.not_le.1 hsize, rfl⟩] at h
    cases h
  · unfold layout? at h
    dsimp only at h
    split at h
    · rename_i size hfind
      cases h
      exact ⟨size, by simpa using List.find?_some hfind, rfl⟩
    · cases h

/-! ### Fields -/

/-- The operand field of the instruction `i` at position `k`, where a jump names a position. -/
def fieldAt (t : Tables) (e : Encoding) (ops : List Opcode) (k : Nat) (i : Instr) : Option Nat :=
  match i.operand with
  | .none => some 0
  | .int v => some v.toNat
  | .const c => some (indexIn t.consts c)
  | .name s => some (indexIn t.names s)
  | .localVar s => some (indexIn t.varnames s)
  | .freeVar s => t.cells.idxOf? s
  | .jump target =>
    if ops.length ≤ target then none
    else if i.opcode.operandClass = .jumpRel then
      if e.offsetAt ops target < e.offsetAt ops (k + 1) then none
      else some (e.offsetAt ops target - e.offsetAt ops (k + 1))
    else some (e.offsetAt ops target)

/-- The field of a placed instruction is that of its place in the shape. -/
theorem fieldValue_eq_ok (h : b.Sound) {k : Nat} (hk : k < (b.layout e).length)
    (hk' : k < b.shape.length) {arg : Nat} :
    fieldValue t e (b.layout e) (b.layout e)[k] = .ok arg ↔
      fieldAt t e b.opcodes k b.shape[k] = some arg := by
  have hcode : k < b.code.length := by rwa [length_layout] at hk
  have hops : k < b.opcodes.length := by rwa [opcodes, List.length_map]
  have hlen : b.opcodes.length = b.instrs.length := by rw [opcodes, List.length_map, length_code h]
  have hnext : e.offsetAt b.opcodes (k + 1) =
      e.offsetAt b.opcodes k + e.width b.code[k].2.opcode.hasArg := by
    rw [e.offsetAt_succ b.opcodes k hops]
    simp [opcodes]
  have hshape : b.shape[k] = ⟨b.code[k].2.opcode, b.placeOperand b.code[k].2.operand⟩ := by
    simp [shape]
  rw [getElem_layout k hk hcode, hshape]
  unfold fieldValue fieldAt
  dsimp only
  cases b.code[k].2.operand with
  | jump target =>
    dsimp only [placeOperand]
    rw [offsetOf?_layout h, hnext]
    cases hindex : b.indexOf? target with
    | none =>
      -- A target out of use stands behind the last position, where no jump has a field.
      rw [if_pos (by rw [hlen]; exact Nat.le_refl _)]
      exact error_eq_ok_iff
    | some j =>
      have hj := indexOf?_lt hindex
      rw [Option.map_some, Option.getD_some, if_neg (by omega)]
      dsimp only
      split
      · split
        · exact error_eq_ok_iff
        · rw [Except.ok.injEq, Option.some.injEq]
      · rw [Except.ok.injEq, Option.some.injEq]
  | freeVar s =>
    dsimp only [placeOperand]
    cases t.cells.idxOf? s with
    | none => exact error_eq_ok_iff
    | some j => rw [Except.ok.injEq, Option.some.injEq]
  | _ => exact (Except.ok.injEq _ _).to_iff.trans (Option.some.injEq _ _).to_iff.symm

/-- The operand fields `args` of a shape, each of them within its bounds. -/
structure Fields (t : Tables) (e : Encoding) (shape : List Instr) (args : List Nat) : Prop where
  length_eq : args.length = shape.length
  field : ∀ k (hk : k < args.length) (hk' : k < shape.length),
    fieldAt t e (shape.map (·.opcode)) k shape[k] = some args[k]
  bounded : ∀ arg ∈ args, arg ≤ e.maxOperand

/-! ### Bytes -/

/-- The bytes of instructions with the given operand fields. -/
def emitAll (e : Encoding) (ops : List Opcode) (args : List Nat) : List UInt8 :=
  (ops.zip args).flatMap fun p => emit e p.1 p.2

/-- An instruction is stored when it has a field within the bounds, and stored as its opcode with
    that field. -/
theorem instrBytes_eq_ok {placed : List Placed} {p : Placed} {chunk : List UInt8} :
    instrBytes t e placed p = .ok chunk ↔
      ∃ arg, (fieldValue t e placed p = .ok arg ∧ arg ≤ e.maxOperand) ∧
        emit e p.instr.opcode arg = chunk := by
  rw [instrBytes, bind_eq_ok]
  refine exists_congr fun arg => ?_
  rw [and_assoc]
  refine and_congr_right fun _ => ?_
  by_cases hmax : e.maxOperand < arg
  · simp only [if_pos hmax]
    exact ⟨nofun, fun h => absurd h.1 (by omega)⟩
  · simp only [if_neg hmax, Nat.le_of_not_lt hmax, true_and]
    exact (Except.ok.injEq _ _).to_iff

/-- **Bytes.** Storing succeeds when every instruction has a field within its bounds, and emits the
    opcodes with these fields. -/
theorem codeBytes_eq_ok (h : b.Sound) {bytes : List UInt8} :
    b.codeBytes e (b.layout e) = .ok bytes ↔
      ∃ args, Fields b.tables e b.shape args ∧ emitAll e b.opcodes args = bytes := by
  -- The pieces that are stored one by one are the bytes that are emitted for the opcodes.
  have hchunks : ∀ args : List Nat,
      (List.zipWith (fun p arg => emit e p.instr.opcode arg) (b.layout e) args).flatten =
        emitAll e b.opcodes args := by
    intro args
    rw [emitAll, ← map_opcode_layout, List.zip_map_left, List.flatMap_map, List.flatMap_def,
      List.map_zip_eq_zipWith]
    rfl
  -- A layout has the fields that its shape has.
  have hfields : ∀ args : List Nat,
      List.Forall₂ (fun p arg => fieldValue b.tables e (b.layout e) p = .ok arg ∧
        arg ≤ e.maxOperand) (b.layout e) args ↔ Fields b.tables e b.shape args := by
    intro args
    have hlen : (b.layout e).length = b.shape.length := by
      rw [length_layout, length_code h, length_shape h]
    rw [List.forall₂_iff_get]
    constructor
    · rintro ⟨hargs, hall⟩
      refine ⟨by omega, fun k hk hk' => ?_, fun arg harg => ?_⟩
      · rw [opcodes_shape]
        exact (fieldValue_eq_ok h (by omega) hk').1 (hall k (by omega) hk).1
      · obtain ⟨k, hk, rfl⟩ := List.getElem_of_mem harg
        exact (hall k (by omega) hk).2
    · intro hf
      refine ⟨by rw [hlen, hf.length_eq], fun k hk hk' => ?_⟩
      have hfield := hf.field k hk' (by omega)
      rw [opcodes_shape] at hfield
      exact ⟨(fieldValue_eq_ok h hk (by omega)).2 hfield, hf.bounded _ (List.getElem_mem hk')⟩
  rw [codeBytes, bind_eq_ok]
  simp only [mapM_eq_ok, instrBytes_eq_ok, forall₂_exists]
  constructor
  · rintro ⟨_, ⟨args, hargs, rfl⟩, hbytes⟩
    cases hbytes
    exact ⟨args, (hfields args).1 hargs, (hchunks args).symm⟩
  · rintro ⟨args, hargs, rfl⟩
    exact ⟨_, ⟨args, (hfields args).2 hargs, rfl⟩, by rw [← hchunks args]; rfl⟩

/-! ### What fields stand for -/

/-- The tables of a stored unit. -/
def unitTables (unit : StoredUnit) : Tables :=
  ⟨unit.consts, unit.names, unit.varnames, unit.cellvars ++ unit.freevars⟩

/-- The tables have a place for the operand; the cells are looked up for each field. -/
def Tables.Hold (t : Tables) : Operand → Prop
  | .const c => c ∈ t.consts
  | .name s => s ∈ t.names
  | .localVar s => s ∈ t.varnames
  | _ => True

/-- The derived tables hold the operands of the shape. -/
theorem tables_hold : ∀ i ∈ b.shape, b.tables.Hold i.operand := by
  intro i hi
  obtain ⟨⟨id, opcode, operand⟩, hmem, rfl⟩ := List.mem_map.1 hi
  have hoperand : operand ∈ b.operands := List.mem_map.2 ⟨_, hmem, rfl⟩
  cases operand with
  | const c => exact mem_consts.2 hoperand
  | name s => exact mem_names.2 hoperand
  | localVar s => exact mem_varnames.2 (.inr hoperand)
  | _ => trivial

/-- A field stands for the operand that it was made from. -/
theorem stands_of_fieldAt {unit : StoredUnit} {ops : List Opcode} {k arg : Nat} {i : Instr}
    (hfits : i.operand.fits i.opcode.operandClass = true)
    (hhold : (unitTables unit).Hold i.operand)
    (h : fieldAt (unitTables unit) e ops k i = some arg) :
    Routine.Stands unit e ops k arg i.opcode.operandClass i.operand := by
  obtain ⟨opcode, operand⟩ := i
  dsimp only at *
  unfold fieldAt at h
  -- An operand fits one class only, but for jumps: those have two, with a field of its own for
  -- each.
  cases operand with
  | none =>
    cases hclass : opcode.operandClass <;> rw [hclass] at hfits <;> cases hfits
    exact .none
  | int v =>
    cases hclass : opcode.operandClass <;> rw [hclass] at hfits <;> cases hfits
    cases h
    have hv : Routine.Stands unit e ops k v.toNat .int (.int (UInt32.ofNat v.toNat)) := .int
    rwa [UInt32.ofNat_toNat] at hv
  | const c =>
    cases hclass : opcode.operandClass <;> rw [hclass] at hfits <;> cases hfits
    cases h
    exact .const (getElem?_indexIn hhold)
  | name s =>
    cases hclass : opcode.operandClass <;> rw [hclass] at hfits <;> cases hfits
    cases h
    exact .name (getElem?_indexIn hhold)
  | localVar s =>
    cases hclass : opcode.operandClass <;> rw [hclass] at hfits <;> cases hfits
    cases h
    exact .localVar (getElem?_indexIn hhold)
  | freeVar s =>
    cases hclass : opcode.operandClass <;> rw [hclass] at hfits <;> cases hfits
    obtain ⟨hlt, hget, -⟩ := List.idxOf?_eq_some_iff.1 h
    exact .freeVar ((List.getElem?_eq_getElem hlt).trans (congrArg some hget))
  | jump target =>
    dsimp only at h
    split at h
    · cases h
    · rename_i htarget
      cases hclass : opcode.operandClass <;> rw [hclass] at hfits h <;> cases hfits
      · rw [if_neg (by decide)] at h
        exact .jumpAbs (by omega) (Option.some.inj h)
      · rw [if_pos rfl] at h
        split at h
        · cases h
        · have := Option.some.inj h
          exact .jumpRel (by omega) (by omega)

/-- **Emitted fields.** A unit of the emitted bytes represents the shape, with these fields. -/
theorem Fields.represents (unit : StoredUnit) {shape : List Instr} {args : List Nat}
    (h : Fields (unitTables unit) e shape args)
    (hfits : ∀ i ∈ shape, i.operand.fits i.opcode.operandClass = true)
    (hhold : ∀ i ∈ shape, (unitTables unit).Hold i.operand)
    (hcode : unit.code = emitAll e (shape.map (·.opcode)) args) :
    ∃ walked, Represents unit e walked shape ∧ walked.map (·.arg) = args := by
  have hlen : args.length = (shape.map (·.opcode)).length := by rw [h.length_eq, List.length_map]
  have hops : opcodesOf (locateAll e 0 ((shape.map (·.opcode)).zip args)) =
      shape.map (·.opcode) := by
    rw [opcodesOf_locateAll, List.map_fst_zip (Nat.le_of_eq hlen.symm)]
  have hargs : (locateAll e 0 ((shape.map (·.opcode)).zip args)).map (·.arg) = args := by
    rw [map_arg_locateAll, List.map_snd_zip (Nat.le_of_eq hlen)]
  have hstands : ∀ k (hk : k < args.length) (hk' : k < shape.length),
      Routine.Stands unit e (shape.map (·.opcode)) k args[k] shape[k].opcode.operandClass
        shape[k].operand :=
    fun k hk hk' => stands_of_fieldAt (hfits _ (List.getElem_mem hk'))
      (hhold _ (List.getElem_mem hk')) (h.field k hk hk')
  refine ⟨_, .of_stands ?_ hops fun k hk hk' => ?_, hargs⟩
  · rw [hcode]
    refine walks_flatMap_emit _ 0 fun p hp => ?_
    obtain ⟨k, hk, rfl⟩ := List.getElem_of_mem hp
    have hk' : k < args.length ∧ k < shape.length := by simp at hk; omega
    rw [List.getElem_zip, List.getElem_map]
    refine ⟨h.bounded _ (List.getElem_mem _), fun hnone => ?_⟩
    -- An opcode without an operand field takes no operand, whose field is zero.
    have hclass : shape[k].opcode.operandClass = .none := by
      by_contra hne
      rw [(Opcode.hasArg_iff _).2 hne] at hnone
      cases hnone
    have hoperand : shape[k].operand = .none := by
      have hk := hstands k hk'.1 hk'.2
      rw [hclass] at hk
      generalize shape[k].operand = o at hk
      cases hk
      rfl
    have hfield := h.field k hk'.1 hk'.2
    rw [fieldAt, hoperand] at hfield
    exact (Option.some.inj hfield).symm
  · have hget := List.getElem_of_eq hargs (i := k) (by simpa using hk)
    rw [List.getElem_map] at hget
    rw [hget]
    exact hstands k _ hk'

end Body

end StackCode

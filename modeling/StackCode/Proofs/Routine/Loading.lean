import Mathlib.Data.List.Nodup
import StackCode.Proofs.Pool
import StackCode.Proofs.Routine.Represents
import StackCode.Proofs.Routine.Shape

namespace StackCode

/-!
# Loaded routines

A loaded routine numbers its instructions by their positions, so it is nothing but the shape that
the bytes represent, with lines and parameters added.

* `Routine.loaded` — the routine of a shape: its instructions are known by their positions.
* `Routine.readLines` — the line map of a loaded routine, by positions too.
* `Routine.load?_eq_ok` — loading succeeds for the units that represent a shape and have lines and
  parameters, and gives the routine of that shape.
* `Routine.sound_loaded`, `Routine.shape_loaded` — that routine is sound and has that shape.
-/

namespace Routine

variable {unit : StoredUnit} {e : Encoding} {walked : List Located} {shape : List Instr}
  {lines : LineMap} {signature : Signature}

/-! ### Parts -/

/-- The routine of a shape whose instructions are known by their positions. -/
def loaded (unit : StoredUnit) (e : Encoding) (shape : List Instr) (lines : LineMap)
    (signature : Signature) : Routine where
  pool := .ofInstrs shape
  instrs := List.range' 0 shape.length
  signature := signature
  cellvars := unit.cellvars
  freevars := unit.freevars
  name := unit.name
  filename := unit.filename
  firstlineno := unit.firstlineno
  lines := lines
  encoding := e
  flags := ⟨unit.flags⟩

/-- The line map of the instructions `walked`; without instructions the line table is not read. -/
def readLines (unit : StoredUnit) (e : Encoding) (walked : List Located) :
    Except LoadError LineMap :=
  if walked.isEmpty then .ok .empty
  else part .lineTable (LineTable.decode unit.lineTable unit.firstlineno e.lineFormat) >>=
    lineMap walked

/-- With instructions, the lines are those of the decoded table, each at an instruction. -/
theorem readLines_eq_ok (h : walked ≠ []) :
    readLines unit e walked = .ok lines ↔ ∃ starts,
      LineTable.decode unit.lineTable unit.firstlineno e.lineFormat = .ok starts ∧
        lineMap walked starts = .ok lines := by
  rw [readLines, if_neg (by simpa using h), bind_eq_ok]
  simp only [part, mapError_eq_ok]

/-- A jump of a represented shape leads to one of its positions. -/
theorem target_lt (h : Represents unit e walked shape) :
    ∀ i ∈ shape, ∀ t, i.operand = .jump t → t < shape.length := by
  intro i hi t ht
  obtain ⟨k, arg, -, hstands⟩ := h.exists_stands hi
  generalize i.opcode.operandClass = c at hstands
  rw [ht] at hstands
  cases hstands with
  | jumpAbs hlt _ => simpa using hlt
  | jumpRel hlt _ => simpa using hlt

/-- A cell variable of a represented shape is declared. -/
theorem declared_of_represents (h : Represents unit e walked shape) :
    ∀ i ∈ shape, ∀ s, i.operand = .freeVar s → s ∈ unit.cellvars ++ unit.freevars := by
  intro i hi s hs
  obtain ⟨k, arg, -, hstands⟩ := h.exists_stands hi
  generalize i.opcode.operandClass = c at hstands
  rw [hs] at hstands
  cases hstands with
  | freeVar hget => exact List.mem_of_getElem? hget

/-- The operands of a represented shape fit their opcodes. -/
theorem fits_of_represents (h : Represents unit e walked shape) :
    ∀ i ∈ shape, i.operand.fits i.opcode.operandClass = true := by
  intro i hi
  obtain ⟨k, arg, -, hstands⟩ := h.exists_stands hi
  exact hstands.fits

/-! ### The routine of a shape -/

/-- The pool of a loaded routine has the instructions of the shape only. -/
theorem mem_loaded {id : Handle} {i : Instr}
    (h : (loaded unit e shape lines signature).pool.get? id = .some i) : i ∈ shape := by
  rw [loaded, Pool.get?_ofInstrs] at h
  exact List.mem_of_getElem? h

/-- A loaded routine is sound: its instructions are all positions, and the shape fits and is
    declared. -/
theorem sound_loaded (h : Represents unit e walked shape) (lines : LineMap)
    (signature : Signature) :
    (loaded unit e shape lines signature).toBody.Sound where
  known := by
    intro id hid
    obtain ⟨-, hlt⟩ := List.mem_range'_1.1 hid
    rw [Nat.zero_add] at hlt
    exact ⟨shape[id], (Pool.get?_ofInstrs shape id).trans (List.getElem?_eq_getElem hlt)⟩
  distinct := List.nodup_range'
  fits := fun _ _ i hi => fits_of_represents h i (mem_loaded hi)
  declared := fun _ _ i hi s hs => declared_of_represents h i (mem_loaded hi) s hs

/-- The position of an instruction that is known by its position. -/
theorem indexOf?_loaded {k : Nat} (hk : k < shape.length) :
    (loaded unit e shape lines signature).indexOf? k = .some k := by
  refine List.findIdx?_eq_some_iff_getElem.2 ⟨by simpa [loaded] using hk, by simp [loaded], ?_⟩
  intro j hj heq
  exact Nat.ne_of_lt hj (by simpa [loaded] using heq)

/-- Targets of a loaded routine are positions already. -/
theorem placeOperand_loaded {o : Operand} (h : ∀ t, o = .jump t → t < shape.length)
    (unit : StoredUnit) (e : Encoding) (lines : LineMap) (signature : Signature) :
    (loaded unit e shape lines signature).placeOperand o = o := by
  cases o with
  | jump t => rw [Body.placeOperand, indexOf?_loaded (h t rfl), Option.getD_some]
  | _ => rfl

/-- **Shapes.** The routine of a represented shape has that shape. -/
theorem shape_loaded (h : Represents unit e walked shape) (lines : LineMap)
    (signature : Signature) :
    (loaded unit e shape lines signature).shape = shape := by
  have hsound := sound_loaded h lines signature
  have hlen : (loaded unit e shape lines signature).code.length = shape.length := by
    rw [Body.length_code hsound]
    simp [loaded]
  -- At each position stands the instruction of that handle, and jumps name positions already.
  refine List.ext_getElem (by simpa [Body.shape] using hlen) fun k hk hk' => ?_
  have hcode : k < (loaded unit e shape lines signature).code.length := hlen ▸ hk'
  have hinstrs : k < (loaded unit e shape lines signature).instrs.length := by
    simpa [loaded] using hk'
  obtain ⟨-, hget⟩ := Body.getElem_code hsound hcode hinstrs
  have hinstr : (loaded unit e shape lines signature).code[k].2 = shape[k] := by
    have hid : (loaded unit e shape lines signature).instrs[k] = k := by simp [loaded]
    rw [hid] at hget
    have hshape := (Pool.get?_ofInstrs shape k).symm.trans hget
    rw [List.getElem?_eq_getElem hk'] at hshape
    exact (Option.some.inj hshape).symm
  have hplace := placeOperand_loaded (target_lt h shape[k] (List.getElem_mem hk')) unit e lines
    signature
  simp only [Body.shape, List.getElem_map, hinstr, hplace]

/-! ### Loading -/

/-- The steps of loading that are left for a unit that represents a shape. -/
theorem load?_of_represents (h : Represents unit e walked shape) :
    load? unit e = readLines unit e walked >>= fun lines =>
      part .argumentLayout (Signature.ofLayout? unit.argcount.toNat unit.kwonlyargcount.toNat
        ⟨unit.flags⟩ unit.varnames) >>= fun signature =>
      .ok (loaded unit e shape lines signature) := by
  have hcheck : ∀ lines signature, ofDraft? (loaded unit e shape lines signature).toDraft =
      .ok (loaded unit e shape lines signature) := by
    intro lines signature
    have hsound := sound_loaded h lines signature
    rw [ofDraft?, toDraft, (Body.sound_iff.1 hsound).1]
    rfl
  -- Neither the pool nor the check fails, since jumps and cells were found in the unit.
  unfold load? readLines
  rw [walk_eq_ok.2 h.walks]
  simp only [part, Except.mapError, bind, Except.bind, h.instrs, Pool.run_insertMany (target_lt h)]
  split
  · cases Signature.ofLayout? unit.argcount.toNat unit.kwonlyargcount.toNat ⟨unit.flags⟩
      unit.varnames with
    | error err => rfl
    | ok signature => exact congrArg (Except.mapError LoadError.build) (hcheck .empty signature)
  · cases LineTable.decode unit.lineTable unit.firstlineno e.lineFormat with
    | error err => rfl
    | ok starts =>
      dsimp only
      cases lineMap walked starts with
      | error err => rfl
      | ok lines =>
        cases Signature.ofLayout? unit.argcount.toNat unit.kwonlyargcount.toNat ⟨unit.flags⟩
          unit.varnames with
        | error err => rfl
        | ok signature => exact congrArg (Except.mapError LoadError.build) (hcheck lines signature)

/-- **Loading.** The units that are loaded are those that represent a shape and have lines and
    parameters; what is loaded is the routine of the shape. -/
theorem load?_eq_ok {c : Routine} :
    load? unit e = .ok c ↔ ∃ walked shape lines signature,
      Represents unit e walked shape ∧ readLines unit e walked = .ok lines ∧
        Signature.ofLayout? unit.argcount.toNat unit.kwonlyargcount.toNat ⟨unit.flags⟩
          unit.varnames = .ok signature ∧
        loaded unit e shape lines signature = c := by
  constructor
  · intro h
    have hload := h
    obtain ⟨walked, hwalk, h⟩ := bind_eq_ok.1 h
    obtain ⟨shape, hshape, -⟩ := bind_eq_ok.1 h
    rw [part, mapError_eq_ok, walk_eq_ok] at hwalk
    -- The first two steps find the shape, and so say what the others do.
    have hrep : Represents unit e walked shape := ⟨hwalk, hshape⟩
    rw [load?_of_represents hrep, bind_eq_ok] at hload
    obtain ⟨lines, hread, hload⟩ := hload
    obtain ⟨signature, hsignature, hload⟩ := bind_eq_ok.1 hload
    rw [part, mapError_eq_ok] at hsignature
    exact ⟨walked, shape, lines, signature, hrep, hread, hsignature, Except.ok.inj hload⟩
  · rintro ⟨walked, shape, lines, signature, hrep, hread, hsignature, rfl⟩
    rw [load?_of_represents hrep, hread, hsignature]
    rfl

end Routine

end StackCode

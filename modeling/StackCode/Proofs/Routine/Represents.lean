import StackCode.Proofs.Bytecode
import StackCode.Proofs.Fallible
import StackCode.Routine.Load

namespace StackCode

/-!
# Bytes that represent instructions

A stored unit represents a shape, instructions whose jumps name positions, when its bytes are those
instructions and every operand field stands for the operand.

* `Stands` — what an operand field stands for, one case for each class of operands.
* `resolve_eq_ok` — resolving a field finds the operand that it stands for.
* `Represents` — the bytes and the tables of a unit represent a shape.
* `Represents.stands` — each field of a unit stands for the operand at its position.
-/

namespace Routine

/-! ### Positions by offset -/

/-- The instruction at a position is the one that starts at the offset of the position. -/
theorem startingAt?_eq_some {e : Encoding} {bytes : List UInt8} {walked : List Located}
    (h : Walks e 0 bytes walked) {offset k : Nat} :
    startingAt? walked offset = some k ↔
      k < walked.length ∧ e.offsetAt (opcodesOf walked) k = offset := by
  have hoffset : ∀ j (hj : j < walked.length),
      walked[j].offset = e.offsetAt (opcodesOf walked) j := by
    intro j hj
    rw [(h.getElem j hj).1, Nat.zero_add]
  rw [startingAt?, List.findIdx?_eq_some_iff_getElem]
  constructor
  · rintro ⟨hk, hfound, -⟩
    exact ⟨hk, by rw [← hoffset k hk]; simpa using hfound⟩
  · rintro ⟨hk, rfl⟩
    -- No earlier instruction starts there, since later positions have larger offsets.
    refine ⟨hk, by simpa using hoffset k hk, fun j hj => ?_⟩
    have hlt := e.offsetAt_lt (opcodesOf walked) hj (by rw [length_opcodesOf]; omega)
    rw [decide_eq_true_eq, hoffset j (by omega)]
    omega

/-! ### Operands -/

/-- What the operand field `arg` of the instruction at position `k` stands for, by the class of its
    opcode.  A jump stands for the position of its target. -/
inductive Stands (unit : StoredUnit) (e : Encoding) (ops : List Opcode) (k arg : Nat) :
    OperandClass → Operand → Prop where
  | none : Stands unit e ops k arg .none .none
  | int : Stands unit e ops k arg .int (.int (UInt32.ofNat arg))
  | const {c : Const} (h : unit.consts[arg]? = some c) : Stands unit e ops k arg .const (.const c)
  | name {s : String} (h : unit.names[arg]? = some s) : Stands unit e ops k arg .name (.name s)
  | localVar {s : String} (h : unit.varnames[arg]? = some s) :
      Stands unit e ops k arg .local (.localVar s)
  | freeVar {s : String} (h : (unit.cellvars ++ unit.freevars)[arg]? = some s) :
      Stands unit e ops k arg .free (.freeVar s)
  | jumpAbs {t : Nat} (ht : t < ops.length) (h : e.offsetAt ops t = arg) :
      Stands unit e ops k arg .jumpAbs (.jump t)
  | jumpRel {t : Nat} (ht : t < ops.length)
      (h : e.offsetAt ops t = e.offsetAt ops (k + 1) + arg) :
      Stands unit e ops k arg .jumpRel (.jump t)

/-- What a field stands for fits its class. -/
theorem Stands.fits {unit : StoredUnit} {e : Encoding} {ops : List Opcode} {k arg : Nat}
    {c : OperandClass} {o : Operand} (h : Stands unit e ops k arg c o) : o.fits c = true := by
  cases h <;> rfl

/-- An entry of a table is found at its index. -/
theorem entry_eq_ok {α : Type} {here : Located} {label : String} {table : List α} {a : α} :
    entry here label table = .ok a ↔ table[here.arg]? = some a := by
  unfold entry
  split
  · rename_i found hfound
    rw [hfound, Except.ok.injEq, Option.some.injEq]
  · rename_i hnone
    rw [hnone]
    exact ⟨nofun, nofun⟩

/-- An operand made of a table entry is found at the index in the field. -/
theorem map_entry_eq_ok {α : Type} {mk : α → Operand} {here : Located} {label : String}
    {table : List α} {o : Operand} :
    mk <$> entry here label table = .ok o ↔ ∃ a, table[here.arg]? = some a ∧ mk a = o := by
  rw [map_eq_ok]
  exact exists_congr fun a => and_congr_left fun _ => entry_eq_ok

/-- A jump goes to an offset when an instruction starts there, and to the position of that
    instruction. -/
theorem jumpTo_eq_ok {e : Encoding} {bytes : List UInt8} {walked : List Located}
    (h : Walks e 0 bytes walked) {here : Located} {target : Nat} {o : Operand} :
    jumpTo walked here target = .ok o ↔
      ∃ k < walked.length, e.offsetAt (opcodesOf walked) k = target ∧ .jump k = o := by
  unfold jumpTo
  cases hstart : startingAt? walked target with
  | some k =>
    obtain ⟨hk, hoffset⟩ := (startingAt?_eq_some h).1 hstart
    constructor
    · intro ho
      cases ho
      exact ⟨k, hk, hoffset, rfl⟩
    · rintro ⟨j, hj, htarget, rfl⟩
      rw [(startingAt?_eq_some h).2 ⟨hj, htarget⟩] at hstart
      cases hstart
      rfl
  | none =>
    refine ⟨nofun, fun ⟨j, hj, htarget, _⟩ => ?_⟩
    rw [(startingAt?_eq_some h).2 ⟨hj, htarget⟩] at hstart
    cases hstart

/-- **Operands.** Resolving the field of an instruction succeeds with the operand that it stands
    for. -/
theorem resolve_eq_ok {unit : StoredUnit} {e : Encoding} {bytes : List UInt8}
    {walked : List Located} (h : Walks e 0 bytes walked) {k : Nat} (hk : k < walked.length)
    {o : Operand} :
    resolve unit walked walked[k] = .ok o ↔
      Stands unit e (opcodesOf walked) k walked[k].arg walked[k].opcode.operandClass o := by
  have hnext : walked[k].next = e.offsetAt (opcodesOf walked) (k + 1) := by
    rw [(h.getElem k hk).2, Nat.zero_add]
  have hlen := length_opcodesOf walked
  unfold resolve
  cases walked[k].opcode.operandClass with
  | none => exact ⟨fun ho => by cases ho; exact .none, fun ho => by cases ho; rfl⟩
  | int => exact ⟨fun ho => by cases ho; exact .int, fun ho => by cases ho; rfl⟩
  -- A table holds what the field stands for at the index in the field.
  | const =>
    refine map_entry_eq_ok.trans ⟨?_, ?_⟩
    · rintro ⟨c, hc, rfl⟩
      exact .const hc
    · intro ho
      cases ho with
      | const hc => exact ⟨_, hc, rfl⟩
  | name =>
    refine map_entry_eq_ok.trans ⟨?_, ?_⟩
    · rintro ⟨s, hs, rfl⟩
      exact .name hs
    · intro ho
      cases ho with
      | name hs => exact ⟨_, hs, rfl⟩
  | «local» =>
    refine map_entry_eq_ok.trans ⟨?_, ?_⟩
    · rintro ⟨s, hs, rfl⟩
      exact .localVar hs
    · intro ho
      cases ho with
      | localVar hs => exact ⟨_, hs, rfl⟩
  | free =>
    refine map_entry_eq_ok.trans ⟨?_, ?_⟩
    · rintro ⟨s, hs, rfl⟩
      exact .freeVar hs
    · intro ho
      cases ho with
      | freeVar hs => exact ⟨_, hs, rfl⟩
  -- A jump stands for the position that starts at its target.
  | jumpAbs =>
    refine (jumpTo_eq_ok h).trans ⟨?_, ?_⟩
    · rintro ⟨t, ht, hoffset, rfl⟩
      exact .jumpAbs (by omega) hoffset
    · intro ho
      cases ho with
      | jumpAbs ht hoffset => exact ⟨_, by omega, hoffset, rfl⟩
  | jumpRel =>
    refine (jumpTo_eq_ok h).trans ⟨?_, ?_⟩
    · rintro ⟨t, ht, hoffset, rfl⟩
      exact .jumpRel (by omega) (by rw [hoffset, hnext])
    · intro ho
      cases ho with
      | jumpRel ht hoffset => exact ⟨_, by omega, by rw [hoffset, hnext], rfl⟩

/-! ### Units -/

/-- The instruction of a place is its opcode with the resolved operand, which always fits. -/
theorem instrAt_eq_ok {unit : StoredUnit} {e : Encoding} {bytes : List UInt8}
    {walked : List Located} (h : Walks e 0 bytes walked) {k : Nat} (hk : k < walked.length)
    {i : Instr} :
    instrAt unit walked walked[k] = .ok i ↔ walked[k].opcode = i.opcode ∧
      Stands unit e (opcodesOf walked) k walked[k].arg i.opcode.operandClass i.operand := by
  rw [instrAt, bind_eq_ok]
  constructor
  · rintro ⟨o, ho, hi⟩
    rw [part, mapError_eq_ok, Instr.new?] at hi
    split at hi
    · cases hi
      exact ⟨rfl, (resolve_eq_ok h hk).1 ho⟩
    · cases hi
  · rintro ⟨hop, ho⟩
    rw [← hop] at ho
    refine ⟨i.operand, (resolve_eq_ok h hk).2 ho, ?_⟩
    rw [part, mapError_eq_ok, Instr.new?, if_pos ho.fits, hop]

end Routine

/-- The bytes of a unit are the instructions `walked`, which stand for `shape`. -/
structure Represents (unit : StoredUnit) (e : Encoding) (walked : List Located)
    (shape : List Instr) : Prop where
  walks : Walks e 0 unit.code walked
  instrs : walked.mapM (Routine.instrAt unit walked) = .ok shape

namespace Represents

variable {unit : StoredUnit} {e : Encoding} {walked : List Located} {shape : List Instr}

/-- A shape has an instruction for each that was walked over. -/
theorem length_eq (h : Represents unit e walked shape) : shape.length = walked.length :=
  length_of_mapM_eq_ok h.instrs

/-- The opcodes of the walk are those of the shape. -/
theorem opcodesOf_eq (h : Represents unit e walked shape) :
    opcodesOf walked = shape.map (·.opcode) := by
  refine List.ext_getElem (by simp [h.length_eq]) fun k hk hk' => ?_
  rw [length_opcodesOf] at hk
  rw [List.length_map] at hk'
  simpa [opcodesOf] using ((Routine.instrAt_eq_ok h.walks hk).1
    (getElem_of_mapM_eq_ok h.instrs k hk hk')).1

/-- **Representation.** The instruction at each position has the opcode of the shape, and its field
    stands for the operand. -/
theorem stands (h : Represents unit e walked shape) {k : Nat} (hk : k < walked.length)
    (hk' : k < shape.length) :
    walked[k].opcode = shape[k].opcode ∧
      Routine.Stands unit e (shape.map (·.opcode)) k walked[k].arg shape[k].opcode.operandClass
        shape[k].operand := by
  rw [← h.opcodesOf_eq]
  exact (Routine.instrAt_eq_ok h.walks hk).1 (getElem_of_mapM_eq_ok h.instrs k hk hk')

/-- Instructions start at the offsets of their positions. -/
theorem offset_eq (h : Represents unit e walked shape) {k : Nat} (hk : k < walked.length) :
    walked[k].offset = e.offsetAt (shape.map (·.opcode)) k := by
  rw [(h.walks.getElem k hk).1, Nat.zero_add, h.opcodesOf_eq]

/-- Instructions end where those at the next positions start. -/
theorem next_eq (h : Represents unit e walked shape) {k : Nat} (hk : k < walked.length) :
    walked[k].next = e.offsetAt (shape.map (·.opcode)) (k + 1) := by
  rw [(h.walks.getElem k hk).2, Nat.zero_add, h.opcodesOf_eq]

/-- The operand fields of a unit are within their bounds. -/
theorem arg_le (h : Represents unit e walked shape) {k : Nat} (hk : k < walked.length) :
    walked[k].arg ≤ e.maxOperand := by
  obtain ⟨byte, rest, -, hfound⟩ := h.walks.locate k hk
  exact arg_le_of_locate hfound

/-- An instruction of the shape is what some field within its bounds stands for. -/
theorem exists_stands (h : Represents unit e walked shape) {i : Instr} (hi : i ∈ shape) :
    ∃ k arg, arg ≤ e.maxOperand ∧
      Routine.Stands unit e (shape.map (·.opcode)) k arg i.opcode.operandClass i.operand := by
  obtain ⟨k, hk, rfl⟩ := List.getElem_of_mem hi
  have hk' : k < walked.length := h.length_eq ▸ hk
  exact ⟨k, walked[k].arg, h.arg_le hk', (h.stands hk' hk).2⟩

/-- Fields that stand for the operands of a shape, one by one, represent it. -/
theorem of_stands (hwalks : Walks e 0 unit.code walked)
    (hops : opcodesOf walked = shape.map (·.opcode))
    (h : ∀ k (hk : k < walked.length) (hk' : k < shape.length),
      Routine.Stands unit e (shape.map (·.opcode)) k walked[k].arg shape[k].opcode.operandClass
        shape[k].operand) : Represents unit e walked shape := by
  have hlen : walked.length = shape.length := by
    rw [← length_opcodesOf walked, hops, List.length_map]
  refine ⟨hwalks, mapM_eq_ok_of_getElem hlen fun k hk hk' => ?_⟩
  refine (Routine.instrAt_eq_ok hwalks hk).2 ⟨?_, hops ▸ h k hk hk'⟩
  have hget := List.getElem_of_eq hops (by rwa [length_opcodesOf] : k < (opcodesOf walked).length)
  simpa [opcodesOf] using hget

end Represents

end StackCode

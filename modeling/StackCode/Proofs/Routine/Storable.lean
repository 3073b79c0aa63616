import StackCode.Proofs.LineTable.Pairs
import StackCode.Proofs.Routine.Ownership
import StackCode.Proofs.Routine.RoundTrip

namespace StackCode

/-!
# Routines that can be stored

The stages of storing fail for reasons of their own.  For each stage the absence of its failures is
turned into a condition on the routine, told without offsets where possible, and the conditions
together are necessary and sufficient.

* `Body.fieldValue_eq_error`, `Routine.store?_eq_error` — the ways in which storing fails.
* `Body.JumpsLive` — the jumps of live instructions lead to live instructions; then
  `Routine.store?_ne_unresolvedJump` says that no jump is in the way of storing.
* `Body.OperandValue` — the number that an operand is stored as.
* `Routine.Storable` — what a routine has to satisfy to be stored under an encoding.
* `Routine.store_iff_storable` — it is stored just then.
-/

/-! ### Failures -/

namespace Body

variable {b : Body} {e : Encoding} {t : Tables}

/-- A field has no value for a jump that leads nowhere or, where it is relative, not forwards, and
    for a variable that is not declared. -/
theorem fieldValue_eq_error {placed : List Placed} {p : Placed} {err : StoreError}
    (h : fieldValue t e placed p = .error err) :
    (∃ target, p.instr.operand = .jump target ∧ offsetOf? placed target = none ∧
      err = .unresolvedJump p.id p.instr.opcode target) ∨
    (∃ target, err = .backwardRelativeJump p.id p.instr.opcode target) ∨
    ∃ s, p.instr.operand = .freeVar s ∧ s ∉ t.cells ∧ err = .unknownFreeVar p.instr.opcode s := by
  unfold fieldValue at h
  cases hoperand : p.instr.operand with
  | jump target =>
    rw [hoperand] at h
    cases hoffset : offsetOf? placed target with
    | none =>
      simp only [hoffset] at h
      cases h
      exact .inl ⟨target, rfl, hoffset, rfl⟩
    | some offset =>
      simp only [hoffset] at h
      split at h
      · split at h
        · cases h
          exact .inr (.inl ⟨target, rfl⟩)
        · cases h
      · cases h
  | freeVar s =>
    rw [hoperand] at h
    cases hindex : t.cells.idxOf? s with
    | none =>
      simp only [hindex] at h
      cases h
      exact .inr (.inr ⟨s, rfl, List.idxOf?_eq_none_iff.1 hindex, rfl⟩)
    | some k =>
      simp only [hindex] at h
      cases h
  -- All other operands have a value, if need be that of no entry.
  | _ =>
    rw [hoperand] at h
    cases h

/-- Code has no bytes when some field has no value, or one that is too large. -/
theorem codeBytes_eq_error {err : StoreError} (h : b.codeBytes e (b.layout e) = .error err) :
    ∃ p ∈ b.layout e, fieldValue b.tables e (b.layout e) p = .error err ∨
      ∃ arg, err = .operandOverflow p.offset p.instr.opcode arg e.maxOperand := by
  rcases bind_eq_error.1 h with h | ⟨chunks, -, h⟩
  · obtain ⟨p, hp, hbytes⟩ := exists_of_mapM_eq_error h
    refine ⟨p, hp, ?_⟩
    rcases bind_eq_error.1 hbytes with hfield | ⟨arg, -, hlimit⟩
    · exact .inl hfield
    · split at hlimit
      · cases hlimit
        exact .inr ⟨arg, rfl⟩
      · cases hlimit
  · cases h

end Body

/-- **Failures.** Storing fails at the size, at the field of an instruction, at the line table or in
    the pass over the bytes. -/
theorem Routine.store?_eq_error {c : Routine} {options : StoreOptions} {err : StoreError}
    (h : c.store? options = .error err) :
    (∃ size, err = .tooLarge size) ∨ (∃ e, c.codeBytes e (c.layout e) = .error err) ∨
      (∃ reason, err = .lineTable reason) ∨ ∃ report, err = .optimizer report := by
  rcases bind_eq_error.1 h with h | ⟨unit, -, h⟩
  · rcases bind_eq_error.1 h with hlayout | ⟨placed, hlayout, h⟩
    · obtain ⟨-, size, -, heq⟩ := Body.layout?_eq_error hlayout
      exact .inl ⟨size, heq⟩
    · obtain ⟨-, rfl⟩ := Body.layout?_eq_ok.1 hlayout
      rcases bind_eq_error.1 h with hcode | ⟨code, -, h⟩
      · exact .inr (.inl ⟨_, hcode⟩)
      · -- The line table is written after the bytes, and fails in its own way.
        rcases bind_eq_error.1 h with hlines | ⟨lineTable, -, h⟩
        · obtain ⟨reason, -, heq⟩ := mapError_eq_error.1 hlines
          exact .inr (.inr (.inl ⟨reason, heq.symm⟩))
        · cases h
  · split at h
    · cases h
    · rcases bind_eq_error.1 h with hreport | ⟨code, -, h⟩
      · obtain ⟨report, -, heq⟩ := mapError_eq_error.1 hreport
        exact .inr (.inr (.inr ⟨report, heq.symm⟩))
      · cases h

/-! ### Live jumps -/

namespace Body

variable {b : Body} {e : Encoding}

/-- The jumps of live instructions lead to live instructions. -/
def JumpsLive (b : Body) : Prop :=
  ∀ id ∈ b.instrs, ∀ target, b.pool.target? id = some target → target ∈ b.instrs

/-- Every live jump has one target, so that the live ones can be looked through. -/
instance : Decidable b.JumpsLive :=
  inferInstanceAs (Decidable (∀ id ∈ b.instrs, ∀ target ∈ b.pool.target? id, target ∈ b.instrs))

/-- The live instructions of a sound body are in its pool. -/
theorem lt_size_of_sound (h : b.Sound) : ∀ id ∈ b.instrs, id < b.pool.size := by
  intro id hid
  obtain ⟨i, hi⟩ := h.known id hid
  exact Pool.lt_size_of_get? hi

/-- Live instructions that the pool knows are placed. -/
theorem exists_offsetOf? {id : Handle} (hid : id ∈ b.instrs)
    (hknown : ∃ i, b.pool.get? id = some i) :
    ∃ offset, offsetOf? (b.layout e) id = some offset := by
  obtain ⟨i, hi⟩ := hknown
  rw [layout, offsetOf?_place]
  cases hindex : b.code.findIdx? (·.1 = id) with
  | none =>
    have hnot := List.findIdx?_eq_none_iff.1 hindex (id, i) (mem_code.2 ⟨hid, hi⟩)
    simp at hnot
  | some k => exact ⟨_, rfl⟩

/-- What is placed is an instruction of the code. -/
theorem mem_code_of_mem_layout {p : Placed} (hp : p ∈ b.layout e) : (p.id, p.instr) ∈ b.code := by
  obtain ⟨k, hk, rfl⟩ := List.getElem_of_mem hp
  have hcode : k < b.code.length := by rwa [length_layout] at hk
  rw [getElem_layout k hk hcode]
  exact List.getElem_mem hcode

end Body

namespace Routine

variable {c : Routine} {e : Encoding}

/-- **Storing live jumps.** When the jumps of a routine are live, it is not a jump that keeps it
    from being stored. -/
theorem store?_ne_unresolvedJump (hjumps : c.JumpsLive)
    (hknown : ∀ id ∈ c.instrs, ∃ i, c.pool.get? id = some i) (options : StoreOptions)
    (source : Handle) (opcode : Opcode) (target : Handle) :
    c.store? options ≠ .error (.unresolvedJump source opcode target) := by
  intro h
  rcases store?_eq_error h with ⟨_, herr⟩ | ⟨e, hcode⟩ | ⟨_, herr⟩ | ⟨_, herr⟩
  · cases herr
  · obtain ⟨p, hp, hfield | ⟨_, herr⟩⟩ := Body.codeBytes_eq_error hcode
    · rcases Body.fieldValue_eq_error hfield with
        ⟨t, hoperand, hoffset, -⟩ | ⟨_, herr⟩ | ⟨_, _, _, herr⟩
      · -- The target of a live jump has a place.
        obtain ⟨hid, hget⟩ := Body.mem_code.1 (Body.mem_code_of_mem_layout hp)
        have htarget : c.pool.target? p.id = some t := by
          rw [Pool.target?, hget, Option.bind_some, Instr.target?, hoperand]
          rfl
        have hlive := hjumps _ hid t htarget
        obtain ⟨offset, hplaced⟩ := Body.exists_offsetOf? (e := e) hlive (hknown t hlive)
        rw [hplaced] at hoffset
        cases hoffset
      · cases herr
      · cases herr
    · cases herr
  · cases herr
  · cases herr

/-- The variables of a sound routine are declared. -/
theorem store?_ne_unknownFreeVar (hc : c.Sound) (options : StoreOptions) (opcode : Opcode)
    (name : String) : c.store? options ≠ .error (.unknownFreeVar opcode name) := by
  intro h
  rcases store?_eq_error h with ⟨_, herr⟩ | ⟨e, hcode⟩ | ⟨_, herr⟩ | ⟨_, herr⟩
  · cases herr
  · obtain ⟨p, hp, hfield | ⟨_, herr⟩⟩ := Body.codeBytes_eq_error hcode
    · rcases Body.fieldValue_eq_error hfield with
        ⟨_, _, _, herr⟩ | ⟨_, herr⟩ | ⟨s, hoperand, hcells, -⟩
      · cases herr
      · cases herr
      · obtain ⟨hid, hget⟩ := Body.mem_code.1 (Body.mem_code_of_mem_layout hp)
        exact hcells (hc.declared p.id hid p.instr hget s hoperand)
    · cases herr
  · cases herr
  · cases herr

end Routine

/-! ### Values of operands -/

namespace Body

variable {b : Body} {e : Encoding} {k v v' : Nat} {op : Opcode} {o : Operand}

/-- The number that the operand of an instruction at position `k` is stored as: its own, its index
    in a derived table, the offset of a target, or the distance from behind a relative jump. -/
inductive OperandValue (b : Body) (e : Encoding) (k : Nat) (op : Opcode) : Operand → Nat → Prop where
  | none : OperandValue b e k op .none 0
  | int {n : UInt32} : OperandValue b e k op (.int n) n.toNat
  | const {c : Const} {n : Nat} (h : b.consts.idxOf? c = some n) :
      OperandValue b e k op (.const c) n
  | name {s : String} {n : Nat} (h : b.names.idxOf? s = some n) : OperandValue b e k op (.name s) n
  | localVar {s : String} {n : Nat} (h : b.varnames.idxOf? s = some n) :
      OperandValue b e k op (.localVar s) n
  | freeVar {s : String} {n : Nat} (h : (b.cellvars ++ b.freevars).idxOf? s = some n) :
      OperandValue b e k op (.freeVar s) n
  | jumpAbs {t : Handle} {j : Nat} (habs : op.operandClass ≠ .jumpRel)
      (h : b.indexOf? t = some j) : OperandValue b e k op (.jump t) (e.offsetAt b.opcodes j)
  | jumpRel {t : Handle} {j : Nat} (hrel : op.operandClass = .jumpRel)
      (h : b.indexOf? t = some j) (hlater : k < j) :
      OperandValue b e k op (.jump t) (e.offsetAt b.opcodes j - e.offsetAt b.opcodes (k + 1))

/-- What is in a table is stored as its index there, and nothing else is. -/
theorem indexIn_eq_iff {α : Type} [BEq α] [LawfulBEq α] {table : List α} {a : α} (h : a ∈ table) :
    indexIn table a = v ↔ table.idxOf? a = some v := by
  obtain ⟨n, hn⟩ := Option.isSome_iff_exists.1 (List.isSome_idxOf?.2 h)
  rw [indexIn, hn, Option.getD_some, Option.some.injEq]

/-- A relative jump leads forwards when its target is at or behind the next instruction, whatever
    the widths of the instructions. -/
theorem offsetAt_le_iff {ops : List Opcode} {j : Nat} (hk : k < ops.length) (hj : j < ops.length) :
    e.offsetAt ops (k + 1) ≤ e.offsetAt ops j ↔ k < j := by
  constructor
  · intro h
    by_contra hle
    have := e.offsetAt_lt ops (j := j) (k := k + 1) (by omega) hk
    omega
  · intro h
    rcases Nat.eq_or_lt_of_le (Nat.succ_le_of_lt h) with rfl | hlt
    · exact Nat.le_refl _
    · exact Nat.le_of_lt (e.offsetAt_lt ops hlt (Nat.le_of_lt hj))

/-- A jump is stored by the position of its target, and a relative one leads forwards only. -/
theorem operandValue_jump {t : Handle} :
    b.OperandValue e k op (.jump t) v ↔ ∃ j, b.indexOf? t = some j ∧
      if op.operandClass = .jumpRel then
        k < j ∧ e.offsetAt b.opcodes j - e.offsetAt b.opcodes (k + 1) = v
      else e.offsetAt b.opcodes j = v := by
  constructor
  · intro h
    cases h with
    | @jumpAbs _ j habs h => exact ⟨j, h, by rw [if_neg habs]⟩
    | @jumpRel _ j hrel h hlater => exact ⟨j, h, by rw [if_pos hrel]; exact ⟨hlater, rfl⟩⟩
  · rintro ⟨j, h, hv⟩
    split at hv
    · rename_i hrel
      obtain ⟨hlater, rfl⟩ := hv
      exact .jumpRel hrel h hlater
    · rename_i habs
      subst hv
      exact .jumpAbs habs h

/-- The field of an instruction is the value of its operand. -/
theorem fieldAt_eq_some (hb : b.Sound) (hk : k < b.instrs.length) (ho : o ∈ b.operands) :
    fieldAt b.tables e b.opcodes k ⟨op, b.placeOperand o⟩ = some v ↔
      b.OperandValue e k op o v := by
  have hlen : b.opcodes.length = b.instrs.length := by rw [opcodes, List.length_map, length_code hb]
  unfold fieldAt
  cases o with
  | none =>
    refine Option.some_inj.trans ⟨?_, ?_⟩
    · rintro rfl
      exact .none
    · rintro ⟨⟩
      rfl
  | int n =>
    refine Option.some_inj.trans ⟨?_, ?_⟩
    · rintro rfl
      exact .int
    · rintro ⟨⟩
      rfl
  -- The derived tables hold the operands that are in use.
  | const c =>
    refine Option.some_inj.trans ((indexIn_eq_iff (mem_consts.2 ho)).trans ⟨.const, ?_⟩)
    rintro ⟨⟩
    assumption
  | name s =>
    refine Option.some_inj.trans ((indexIn_eq_iff (mem_names.2 ho)).trans ⟨.name, ?_⟩)
    rintro ⟨⟩
    assumption
  | localVar s =>
    refine Option.some_inj.trans
      ((indexIn_eq_iff (mem_varnames.2 (.inr ho))).trans ⟨.localVar, ?_⟩)
    rintro ⟨⟩
    assumption
  | freeVar s =>
    refine ⟨.freeVar, ?_⟩
    rintro ⟨⟩
    assumption
  | jump t =>
    rw [operandValue_jump]
    dsimp only [placeOperand]
    cases hindex : b.indexOf? t with
    | none =>
      rw [Option.getD_none, if_pos (Nat.le_of_eq hlen)]
      constructor
      · intro h
        cases h
      · rintro ⟨_, h, _⟩
        cases h
    | some j =>
      have hj := indexOf?_lt hindex
      have hforward := offsetAt_le_iff (e := e) (hlen ▸ hk) (hlen ▸ hj)
      rw [Option.getD_some, if_neg (by omega)]
      simp only [Option.some.injEq, exists_eq_left']
      split
      · rw [← hforward, ← Nat.not_lt]
        split <;> simp_all
      · exact Option.some_inj

/-- An operand in use is stored as one number at most. -/
theorem OperandValue.unique (hb : b.Sound) (hk : k < b.instrs.length) (ho : o ∈ b.operands)
    (h : b.OperandValue e k op o v) (h' : b.OperandValue e k op o v') : v = v' := by
  have hfield := (fieldAt_eq_some hb hk ho).2 h
  rw [(fieldAt_eq_some hb hk ho).2 h'] at hfield
  exact (Option.some.inj hfield).symm

/-- Instructions out of use have no position. -/
theorem indexOf?_eq_none {id : Handle} : b.indexOf? id = none ↔ id ∉ b.instrs := by
  rw [indexOf?, List.findIdx?_eq_none_iff]
  constructor
  · intro h hid
    simpa using h id hid
  · intro h j hj
    refine beq_eq_false_iff_ne.2 ?_
    rintro rfl
    exact h hj

/-- Operands in use have a value, but for jumps that lead nowhere and relative ones that do not lead
    forwards. -/
theorem exists_operandValue_iff (hb : b.Sound) (ho : o ∈ b.operands) :
    (∃ v, b.OperandValue e k op o v) ↔ ∀ t, o = .jump t → t ∈ b.instrs ∧
      (op.operandClass = .jumpRel → ∀ j, b.indexOf? t = some j → k < j) := by
  constructor
  · rintro ⟨v, hv⟩ t rfl
    obtain ⟨j, hindex, hv⟩ := operandValue_jump.1 hv
    refine ⟨?_, fun hrel j' hindex' => ?_⟩
    · by_contra hdead
      rw [indexOf?_eq_none.2 hdead] at hindex
      cases hindex
    · rw [if_pos hrel] at hv
      rw [hindex] at hindex'
      cases hindex'
      exact hv.1
  · intro h
    -- Derived tables hold every operand in use, and cells hold the variables of a sound body.
    cases o with
    | none => exact ⟨0, .none⟩
    | int n => exact ⟨_, .int⟩
    | const c =>
      obtain ⟨n, hn⟩ := Option.isSome_iff_exists.1 (List.isSome_idxOf?.2 (mem_consts.2 ho))
      exact ⟨n, .const hn⟩
    | name s =>
      obtain ⟨n, hn⟩ := Option.isSome_iff_exists.1 (List.isSome_idxOf?.2 (mem_names.2 ho))
      exact ⟨n, .name hn⟩
    | localVar s =>
      obtain ⟨n, hn⟩ := Option.isSome_iff_exists.1 (List.isSome_idxOf?.2 (mem_varnames.2 (.inr ho)))
      exact ⟨n, .localVar hn⟩
    | freeVar s =>
      obtain ⟨⟨id, i⟩, hi, hoperand⟩ := List.mem_map.1 ho
      obtain ⟨hid, hget⟩ := mem_code.1 hi
      have hcell := hb.declared id hid i hget s hoperand
      obtain ⟨n, hn⟩ := Option.isSome_iff_exists.1 (List.isSome_idxOf?.2 hcell)
      exact ⟨n, .freeVar hn⟩
    | jump t =>
      obtain ⟨hlive, hforward⟩ := h t rfl
      obtain ⟨j, hindex⟩ : ∃ j, b.indexOf? t = some j := by
        rw [← Option.ne_none_iff_exists', Ne, indexOf?_eq_none]
        exact not_not.2 hlive
      by_cases hrel : op.operandClass = .jumpRel
      · exact ⟨_, .jumpRel hrel hindex (hforward hrel j hindex)⟩
      · exact ⟨_, .jumpAbs hrel hindex⟩

/-- Code has bytes when every operand has a value, within the bounds of its field. -/
theorem exists_codeBytes_iff (hb : b.Sound) :
    (∃ bytes, b.codeBytes e (b.layout e) = .ok bytes) ↔ ∀ k (hk : k < b.code.length), ∃ v,
      b.OperandValue e k b.code[k].2.opcode b.code[k].2.operand v ∧ v ≤ e.maxOperand := by
  have hlen := length_code hb
  have hshape := length_shape hb
  -- Fields are those of the shape, values those of the body; at each position they are the same.
  have hvalue : ∀ k (hk : k < b.code.length) (hk' : k < b.shape.length) v,
      fieldAt b.tables e (b.shape.map (·.opcode)) k b.shape[k] = some v ↔
        b.OperandValue e k b.code[k].2.opcode b.code[k].2.operand v := by
    intro k hk hk' v
    have hplace : b.shape[k] = ⟨b.code[k].2.opcode, b.placeOperand b.code[k].2.operand⟩ := by
      simp [shape]
    rw [hplace, opcodes_shape]
    exact fieldAt_eq_some hb (hlen ▸ hk) (List.mem_map_of_mem (List.getElem_mem hk))
  constructor
  · rintro ⟨bytes, hbytes⟩ k hk
    obtain ⟨args, hfields, -⟩ := (codeBytes_eq_ok hb).1 hbytes
    have hargs : k < args.length := by rw [hfields.length_eq]; omega
    exact ⟨args[k], (hvalue k hk (by omega) _).1 (hfields.field k hargs _),
      hfields.bounded _ (List.getElem_mem hargs)⟩
  · intro h
    -- The values, one for each position, are the fields that are emitted.
    choose v hv hmax using h
    refine ⟨_, (codeBytes_eq_ok hb).2
      ⟨List.ofFn fun k : Fin b.code.length => v k k.2, ⟨?_, fun k hk hk' => ?_, ?_⟩, rfl⟩⟩
    · rw [List.length_ofFn]
      omega
    · rw [List.getElem_ofFn]
      exact (hvalue k (by omega) hk' _).2 (hv k (by omega))
    · intro arg harg
      obtain ⟨k, rfl⟩ := List.mem_ofFn.1 harg
      exact hmax k k.2

/-! ### Line starts in order -/

/-- The lines that live instructions own do not move back, from line `first` on. -/
def LinesForward (b : Body) (first : UInt32) : Prop :=
  (∀ id ∈ b.instrs, ∀ line, b.Owns id line → first ≤ line) ∧
    b.instrs.Pairwise fun id id' => ∀ line line', b.Owns id line → b.Owns id' line' → line ≤ line'

/-- Lines that are owned do not move back when the stored ones do not, from the first line on. -/
theorem linesForward_iff (hb : b.Sound) {first : UInt32} :
    b.LinesForward first ↔ (b.storedLines (b.layout e)).Pairwise (·.line ≤ ·.line) ∧
      ∀ s ∈ b.storedLines (b.layout e), first ≤ s.line := by
  rw [storedLines_layout hb, LinesForward, and_comm]
  refine and_congr ?_ ?_
  · rw [← map_id_layout hb (e := e), List.pairwise_map, ownedStarts, List.pairwise_map,
      ownedEntries, List.pairwise_filterMap]
    -- Placed instructions are compared in place of the entries that they own.
    refine List.Pairwise.iff fun p q => ?_
    simp only [Option.map_eq_some_iff, ownedLine?_eq_some]
    constructor
    · rintro h _ ⟨line, hline, rfl⟩ _ ⟨line', hline', rfl⟩
      exact h line line' hline hline'
    · intro h line line' hline hline'
      exact h _ ⟨line, hline, rfl⟩ _ ⟨line', hline', rfl⟩
  · rw [← map_id_layout hb (e := e), List.forall_mem_map, ownedStarts, List.forall_mem_map]
    simp only [mem_ownedEntries, ownedLine?_eq_some]
    constructor
    · rintro h entry ⟨p, hp, howns, -⟩
      exact h p hp entry.2 howns
    · intro h p hp line howns
      exact h (p.offset, line) ⟨p, hp, howns, rfl⟩

/-- The stored lines have a table when they do not move back; signed deltas allow for that too. -/
theorem exists_lineTable_iff (hb : b.Sound) (hsize : b.codeSize e < UInt32.size)
    {first : UInt32} :
    (∃ table, LineTable.encode (b.storedLines (b.layout e)) first e.lineFormat = .ok table) ↔
      (e = .legacy → b.LinesForward first) := by
  have hunsigned : e.lineFormat.signedLines = false ↔ e = .legacy := by
    cases e <;> decide
  rw [linesForward_iff hb (e := e), ← hunsigned]
  constructor
  · rintro ⟨table, htable⟩
    exact (LineTable.encodeFrom_eq_ok.1 htable).1.forward
  · intro h
    exact ⟨_, LineTable.encodeFrom_eq_ok.2 ⟨⟨pairwise_storedLines hb hsize, nofun, h⟩, rfl⟩⟩

end Body

namespace Routine

variable {c : Routine} {e : Encoding}

/-- What a routine has to satisfy to be stored under an encoding. -/
structure Storable (c : Routine) (e : Encoding) : Prop where
  /-- Jumps lead to live instructions. -/
  resolved : c.JumpsLive
  /-- Relative jumps lead forwards. -/
  forward : ∀ k (hk : k < c.code.length), c.code[k].2.opcode.operandClass = .jumpRel →
    ∀ t j, c.code[k].2.operand = .jump t → c.indexOf? t = some j → k < j
  /-- Operands fit their fields. -/
  bounded : ∀ k (hk : k < c.code.length) v,
    c.OperandValue e k c.code[k].2.opcode c.code[k].2.operand v → v ≤ e.maxOperand
  /-- Unsigned line deltas do not move back. -/
  lines : e = .legacy → c.LinesForward c.firstlineno

/-- The jumps of the code are those of the live instructions. -/
theorem jumpsLive_iff_code : c.JumpsLive ↔
    ∀ k (hk : k < c.code.length), ∀ t, c.code[k].2.operand = .jump t → t ∈ c.instrs := by
  constructor
  · intro h k hk t hoperand
    have hmem : (c.code[k].1, c.code[k].2) ∈ c.code := List.getElem_mem hk
    obtain ⟨hid, hget⟩ := Body.mem_code.1 hmem
    refine h _ hid t ?_
    rw [Pool.target?, hget, Option.bind_some, Instr.target?, hoperand]
    rfl
  · intro h id hid t htarget
    obtain ⟨i, hget, htarget⟩ := Option.bind_eq_some_iff.1 htarget
    obtain ⟨k, hk, hentry⟩ := List.getElem_of_mem (Body.mem_code.2 ⟨hid, hget⟩)
    refine h k hk t ?_
    rw [hentry]
    unfold Instr.target? Operand.target? at htarget
    split at htarget
    · cases htarget
      assumption
    · cases htarget

/-- **Storing succeeds just for storable routines.**  A sound routine is stored under an encoding
    when its size is a 32-bit number, its jumps lead to live instructions, the relative ones
    forwards, its operands fit their fields, and its lines do not move back where line deltas are
    unsigned.  The variables of a sound routine are always declared, and every operand that is no
    jump has a value: derived tables hold what is looked up in them. -/
theorem store_iff_storable (hc : c.Sound) :
    ((∃ raw, c.store? { encoding := some e } = .ok raw) ↔
      c.codeSize e < UInt32.size ∧ c.Storable e) ∧
      (∀ opcode name, c.store? { encoding := some e } ≠ .error (.unknownFreeVar opcode name)) ∧
      ∀ k (hk : k < c.code.length), c.code[k].2.operand.target? = none →
        ∃ v, c.OperandValue e k c.code[k].2.opcode c.code[k].2.operand v := by
  have hoperand : ∀ k (hk : k < c.code.length), c.code[k].2.operand ∈ c.operands :=
    fun k hk => List.mem_map_of_mem (List.getElem_mem hk)
  refine ⟨?_, store?_ne_unknownFreeVar hc _, fun k hk hplain => ?_⟩
  · -- Storing succeeds when its stages do, each by itself.
    have hparts : (∃ raw, c.store? { encoding := some e } = .ok raw) ↔
        c.codeSize e < UInt32.size ∧ (∃ code, c.codeBytes e (c.layout e) = .ok code) ∧ ∃ table,
          LineTable.encode (c.storedLines (c.layout e)) c.firstlineno e.lineFormat = .ok table := by
      simp only [store?_eq_ok]
      exact ⟨fun ⟨_, code, table, hsize, hcode, htable, _⟩ => ⟨hsize, ⟨code, hcode⟩, table, htable⟩,
        fun ⟨hsize, ⟨code, hcode⟩, table, htable⟩ =>
          ⟨_, code, table, hsize, hcode, htable, rfl⟩⟩
    rw [hparts]
    refine and_congr_right fun hsize => ?_
    rw [Body.exists_codeBytes_iff hc, Body.exists_lineTable_iff hc hsize]
    constructor
    · rintro ⟨hvalues, hlines⟩
      choose v hv hmax using hvalues
      have hjump := fun k hk => (Body.exists_operandValue_iff hc (hoperand k hk)).1 ⟨_, hv k hk⟩
      refine ⟨jumpsLive_iff_code.2 fun k hk t ht => (hjump k hk t ht).1,
        fun k hk hrel t j ht => (hjump k hk t ht).2 hrel j, fun k hk v' hv' => ?_, hlines⟩
      -- An operand has one value only, so the bound on the value that was found is a bound on all.
      rw [hv'.unique hc (Body.length_code hc ▸ hk) (hoperand k hk) (hv k hk)]
      exact hmax k hk
    · intro h
      refine ⟨fun k hk => ?_, h.lines⟩
      obtain ⟨v, hv⟩ := (Body.exists_operandValue_iff hc (hoperand k hk)).2 fun t ht =>
        ⟨jumpsLive_iff_code.1 h.resolved k hk t ht, fun hrel j => h.forward k hk hrel t j ht⟩
      exact ⟨v, hv, h.bounded k hk v hv⟩
  · refine (Body.exists_operandValue_iff hc (hoperand k hk)).2 fun t ht => ?_
    rw [ht] at hplain
    cases hplain

/-- The loop `countdown` on lines that move back, which unsigned deltas do not allow for. -/
def rewound : Routine := { countdown with lines := .ofList [(0, 4), (2, 3)] }

/-- Lines that move back are stored under signed deltas, and not under unsigned ones. -/
theorem store_iff_storable_rewound : rewound.Storable .wordcode ∧
    rewound.codeSize .legacy < UInt32.size ∧ ¬rewound.Storable .legacy := by
  have hsound : rewound.Sound := by decide +kernel
  have hsize : rewound.codeSize .legacy < UInt32.size := by decide +kernel
  refine ⟨?_, hsize, fun h => ?_⟩
  · have hstore : (rewound.store? { encoding := some .wordcode }).isOk = true := by decide +kernel
    exact ((store_iff_storable hsound).1.1 (exists_of_isOk hstore)).2
  · obtain ⟨raw, hraw⟩ := (store_iff_storable hsound).1.2 ⟨hsize, h⟩
    have hfails : (rewound.store? { encoding := some .legacy }).isOk = false := by decide +kernel
    rw [hraw] at hfails
    cases hfails

end Routine

end StackCode

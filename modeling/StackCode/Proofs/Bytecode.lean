import Mathlib.Data.List.Basic
import StackCode.Bytecode
import StackCode.Proofs.Fallible

namespace StackCode

/-!
# Walks of instruction bytes

A walk cuts bytes into instructions without looking at tables or targets.  It is described by the
positions of the instructions, since a position has one offset in each encoding: all that is said of
loading, storing and running a unit is said by position, and comes to bytes through this module.

* `Encoding.offsetAt` — where a position of a sequence of opcodes starts: the sum of the widths
  before it.
* `locate_eq_ok` — what is known of an instruction that was found in bytes.
* `Walks.getElem`, `Walks.length_eq` — a walk finds the instructions at the offsets of their
  positions, and its end is the end of the code.
* `Walks.locate` — an instruction of the walk is what is found at its offset.
* `walks_flatMap_emit` — the walk of emitted instructions finds them again.
-/

/-! ### The catalog by byte -/

/-- The catalog finds each opcode by its byte. -/
theorem Opcode.ofByte?_byte (op : Opcode) : Opcode.ofByte? op.byte = .ok op := by
  have hfind : Opcode.all.find? (·.byte = op.byte) = some op := by
    cases op <;> decide +kernel
  rw [Opcode.ofByte?, hfind]

/-- What is found for a byte has this byte. -/
theorem Opcode.byte_of_ofByte? {b : UInt8} {op : Opcode} (h : Opcode.ofByte? b = .ok op) :
    op.byte = b := by
  unfold Opcode.ofByte? at h
  split at h
  · rename_i found hfound
    cases h
    simpa using List.find?_some hfound
  · cases h

/-! ### Offsets of positions -/

namespace Encoding

variable (e : Encoding)

/-- The offset of position `k` in a sequence of opcodes. -/
def offsetAt : List Opcode → (k : Nat) → Nat
  | op :: ops, k + 1 => e.width op.hasArg + offsetAt ops k
  | _, _ => 0

/-- The first instruction starts at offset `0`. -/
@[simp] theorem offsetAt_zero (ops : List Opcode) : e.offsetAt ops 0 = 0 := by
  cases ops <;> rfl

/-- Behind the first instruction offsets are shifted by its width. -/
@[simp] theorem offsetAt_cons_succ (op : Opcode) (ops : List Opcode) (k : Nat) :
    e.offsetAt (op :: ops) (k + 1) = e.width op.hasArg + e.offsetAt ops k := rfl

/-- Each instruction starts behind the one before it. -/
theorem offsetAt_succ (ops : List Opcode) (k : Nat) (hk : k < ops.length) :
    e.offsetAt ops (k + 1) = e.offsetAt ops k + e.width ops[k].hasArg := by
  induction ops generalizing k with
  | nil => cases hk
  | cons op ops ih =>
    cases k with
    | zero => simp
    | succ k =>
      rw [List.length_cons] at hk
      rw [offsetAt_cons_succ, ih k (by omega), offsetAt_cons_succ, Nat.add_assoc]
      rfl

/-- Later positions have larger offsets. -/
theorem offsetAt_lt (ops : List Opcode) {j k : Nat} (hjk : j < k) (hk : k ≤ ops.length) :
    e.offsetAt ops j < e.offsetAt ops k := by
  induction k with
  | zero => omega
  | succ k ih =>
    rw [offsetAt_succ e ops k (by omega)]
    have hlt : k < ops.length := by omega
    have hw := e.width_pos ops[k].hasArg
    by_cases h : j = k
    · subst h
      omega
    · have := ih (by omega) (by omega)
      omega

/-- The operand field is all of an instruction behind its opcode byte. -/
theorem width_true : e.width true = e.argWidth + 1 := by
  cases e <;> rfl

/-- Operand fields fit 32-bit numbers. -/
theorem maxOperand_lt : e.maxOperand < UInt32.size := by
  cases e <;> decide

end Encoding

/-! ### Single instructions -/

/-- **Locating.** What is known of an instruction that was found at `offset`. -/
theorem locate_eq_ok {e : Encoding} {offset : Nat} {byte : UInt8} {rest : List UInt8}
    {here : Located} (h : locate e offset byte rest = .ok here) :
    here.offset = offset ∧ here.opcode.byte = byte ∧
      here.next = offset + e.width here.opcode.hasArg ∧
      e.width here.opcode.hasArg ≤ rest.length + 1 ∧
      here.arg = if here.opcode.hasArg then Bytes.toNat (rest.take e.argWidth) else 0 := by
  unfold locate at h
  split at h
  · cases h
  · rename_i op hop
    dsimp only at h
    split at h
    · cases h
    · cases h
      exact ⟨rfl, Opcode.byte_of_ofByte? hop, rfl, Nat.le_of_not_lt ‹_›, rfl⟩

/-- An operand that was read fits the operand field. -/
theorem arg_le_of_locate {e : Encoding} {offset : Nat} {byte : UInt8} {rest : List UInt8}
    {here : Located} (h : locate e offset byte rest = .ok here) : here.arg ≤ e.maxOperand := by
  obtain ⟨-, -, -, -, harg⟩ := locate_eq_ok h
  rw [harg]
  split
  · -- A field has as many bytes as its bound, or fewer.
    have hlt := Bytes.toNat_lt (rest.take e.argWidth)
    have hpow : Nat.pow 256 (rest.take e.argWidth).length ≤ Nat.pow 256 e.argWidth :=
      Nat.pow_le_pow_right (by decide) (List.length_take_le _ _)
    have := e.maxOperand_eq
    omega
  · exact Nat.zero_le _

/-- The bytes of an instruction with an operand are those that are emitted for it. -/
theorem emit_of_locate {e : Encoding} {offset : Nat} {byte : UInt8} {rest : List UInt8}
    {here : Located} (h : locate e offset byte rest = .ok here)
    (harg : here.opcode.hasArg = true) :
    emit e here.opcode here.arg = (byte :: rest).take (e.width here.opcode.hasArg) := by
  obtain ⟨-, hbyte, -, hlen, hread⟩ := locate_eq_ok h
  rw [harg, e.width_true] at hlen
  rw [if_pos harg] at hread
  have htake : (rest.take e.argWidth).length = e.argWidth := List.length_take_of_le (by omega)
  rw [emit, hbyte, hread, harg, e.width_true, List.take_succ_cons, Nat.add_sub_cancel]
  conv_lhs => arg 2; arg 1; rw [← htake]
  rw [Bytes.ofNat_toNat]

/-- An instruction is found where it was emitted. -/
theorem locate_emit {e : Encoding} {op : Opcode} {arg : Nat} (offset : Nat) (rest : List UInt8)
    (hmax : arg ≤ e.maxOperand) (hnone : op.hasArg = false → arg = 0) :
    locate e offset op.byte (Bytes.ofNat (e.width op.hasArg - 1) arg ++ rest) =
      .ok ⟨offset, op, arg, offset + e.width op.hasArg⟩ := by
  have hw := e.width_pos op.hasArg
  -- The bytes of a field within its bounds are read as the same number.
  unfold locate
  rw [Opcode.ofByte?_byte]
  dsimp only
  rw [if_neg (by simp; omega)]
  cases harg : op.hasArg with
  | false => simp [hnone harg]
  | true =>
    have hfit : arg % Nat.pow 256 e.argWidth = arg := by
      rw [← e.maxOperand_eq]
      exact Nat.mod_eq_of_lt (by omega)
    rw [if_pos rfl, e.width_true, Nat.add_sub_cancel, List.take_left' (Bytes.length_ofNat _ _),
      Bytes.toNat_ofNat, hfit]

/-! ### Walks -/

/-- The opcodes found by a walk. -/
def opcodesOf (walked : List Located) : List Opcode := walked.map (·.opcode)

/-- There is an opcode for each instruction that was found. -/
@[simp] theorem length_opcodesOf (walked : List Located) :
    (opcodesOf walked).length = walked.length := by
  simp [opcodesOf]

/-- `Walks e offset bytes walked`: the bytes that start at `offset` are the instructions
    `walked`, one behind the other. -/
inductive Walks (e : Encoding) : Nat → List UInt8 → List Located → Prop where
  | nil (offset : Nat) : Walks e offset [] []
  | cons {offset : Nat} {byte : UInt8} {rest : List UInt8} {here : Located}
      {behind : List Located} (found : locate e offset byte rest = .ok here)
      (further : Walks e here.next (rest.drop (e.width here.opcode.hasArg - 1)) behind) :
      Walks e offset (byte :: rest) (here :: behind)

/-- A walk succeeds when the bytes are instructions one behind the other. -/
theorem walk_eq_ok {e : Encoding} {offset : Nat} {bytes : List UInt8} {walked : List Located} :
    walk e offset bytes = .ok walked ↔ Walks e offset bytes walked := by
  have step : ∀ {offset byte rest here}, locate e offset byte rest = .ok here →
      here.next - offset - 1 = e.width here.opcode.hasArg - 1 := by
    intro offset byte rest here h
    obtain ⟨-, -, hnext, -, -⟩ := locate_eq_ok h
    omega
  constructor
  · intro h
    -- The instructions found get fewer with each step, whatever is left of the bytes.
    induction walked generalizing offset bytes with
    | nil =>
      cases bytes with
      | nil => exact .nil offset
      | cons byte rest =>
        rw [walk, bind_eq_ok] at h
        obtain ⟨here, -, h⟩ := h
        obtain ⟨behind, -, h⟩ := bind_eq_ok.1 h
        cases h
    | cons here behind ih =>
      cases bytes with
      | nil =>
        rw [walk] at h
        cases h
      | cons byte rest =>
        rw [walk, bind_eq_ok] at h
        obtain ⟨_, found, h⟩ := h
        obtain ⟨_, further, h⟩ := bind_eq_ok.1 h
        cases h
        rw [step found] at further
        exact .cons found (ih further)
  · intro h
    induction h with
    | nil offset => rw [walk]
    | cons found _ ih =>
      rw [walk, bind_eq_ok]
      refine ⟨_, found, bind_eq_ok.2 ⟨_, ?_, rfl⟩⟩
      rw [step found]
      exact ih

/-- A walk ends at the end of the code. -/
theorem Walks.length_eq {e : Encoding} {offset : Nat} {bytes : List UInt8} {walked : List Located}
    (h : Walks e offset bytes walked) :
    bytes.length = e.offsetAt (opcodesOf walked) walked.length := by
  induction h with
  | nil => rfl
  | @cons _ _ _ here _ found _ ih =>
    obtain ⟨-, -, -, hlen, -⟩ := locate_eq_ok found
    have hw := e.width_pos here.opcode.hasArg
    rw [List.length_drop] at ih
    simp only [opcodesOf, List.map_cons, List.length_cons, Encoding.offsetAt_cons_succ] at ih ⊢
    omega

/-- **Places.** The instruction at a position of a walk starts at the offset of the position and
    ends at that of the next one. -/
theorem Walks.getElem {e : Encoding} {offset : Nat} {bytes : List UInt8}
    {walked : List Located} (h : Walks e offset bytes walked) (k : Nat)
    (hk : k < walked.length) :
    walked[k].offset = offset + e.offsetAt (opcodesOf walked) k ∧
      walked[k].next = offset + e.offsetAt (opcodesOf walked) (k + 1) := by
  -- The places of a walk count from its start, which moves by the first instruction.
  induction h generalizing k with
  | nil => cases hk
  | @cons offset _ _ here _ found _ ih =>
    obtain ⟨hoffset, -, hnext, -, -⟩ := locate_eq_ok found
    cases k with
    | zero => simp [opcodesOf, hoffset, hnext]
    | succ k =>
      obtain ⟨ihoffset, ihnext⟩ := ih k (by simpa using hk)
      rw [hnext] at ihoffset ihnext
      simp only [opcodesOf, List.map_cons, List.getElem_cons_succ, Encoding.offsetAt_cons_succ]
        at ihoffset ihnext ⊢
      omega

/-- The instruction at a position of a walk is what is found at its offset. -/
theorem Walks.locate {e : Encoding} {offset : Nat} {bytes : List UInt8} {walked : List Located}
    (h : Walks e offset bytes walked) (k : Nat) (hk : k < walked.length) :
    ∃ byte rest, bytes.drop (e.offsetAt (opcodesOf walked) k) = byte :: rest ∧
      locate e walked[k].offset byte rest = .ok walked[k] := by
  induction h generalizing k with
  | nil => cases hk
  | @cons offset byte rest here behind found _ ih =>
    obtain ⟨hoffset, -, -, hlen, -⟩ := locate_eq_ok found
    cases k with
    | zero => exact ⟨byte, rest, rfl, by simpa [hoffset] using found⟩
    | succ k =>
      obtain ⟨byte', rest', hdrop, hfound⟩ := ih k (by simpa using hk)
      refine ⟨byte', rest', ?_, by simpa using hfound⟩
      have hw := e.width_pos here.opcode.hasArg
      rw [← hdrop, List.drop_drop]
      simp only [opcodesOf, List.map_cons, Encoding.offsetAt_cons_succ]
      obtain ⟨w, hw⟩ : ∃ w, e.width here.opcode.hasArg = w + 1 := ⟨_, (Nat.sub_add_cancel hw).symm⟩
      rw [hw, Nat.add_right_comm, List.drop_succ_cons, Nat.add_sub_cancel]

/-- The first byte of each instruction is that of its opcode. -/
theorem Walks.getElem?_offset {e : Encoding} {bytes : List UInt8} {walked : List Located}
    (h : Walks e 0 bytes walked) (k : Nat) (hk : k < walked.length) :
    bytes[walked[k].offset]? = some walked[k].opcode.byte := by
  obtain ⟨byte, rest, hdrop, hfound⟩ := h.locate k hk
  obtain ⟨-, hbyte, -, -, -⟩ := locate_eq_ok hfound
  rw [(h.getElem k hk).1, Nat.zero_add, hbyte, ← List.head?_drop, hdrop, List.head?_cons]

/-- The bytes of an instruction with an operand are those that are emitted for it. -/
theorem Walks.take_drop_offset {e : Encoding} {bytes : List UInt8} {walked : List Located}
    (h : Walks e 0 bytes walked) (k : Nat) (hk : k < walked.length)
    (harg : walked[k].opcode.hasArg = true) :
    (bytes.drop walked[k].offset).take (walked[k].next - walked[k].offset) =
      emit e walked[k].opcode walked[k].arg := by
  obtain ⟨byte, rest, hdrop, hfound⟩ := h.locate k hk
  obtain ⟨-, -, hnext, -, -⟩ := locate_eq_ok hfound
  rw [emit_of_locate hfound harg, hnext, Nat.add_sub_cancel_left, ← hdrop, (h.getElem k hk).1,
    Nat.zero_add]

/-- Instructions as they are found one behind the other, from `offset` on. -/
def locateAll (e : Encoding) (offset : Nat) : List (Opcode × Nat) → List Located
  | [] => []
  | (op, arg) :: rest =>
    ⟨offset, op, arg, offset + e.width op.hasArg⟩ ::
      locateAll e (offset + e.width op.hasArg) rest

/-- Emitted instructions are found with their opcodes. -/
theorem opcodesOf_locateAll (e : Encoding) (offset : Nat) (ps : List (Opcode × Nat)) :
    opcodesOf (locateAll e offset ps) = ps.map (·.1) := by
  induction ps generalizing offset with
  | nil => rfl
  | cons p ps ih => exact congrArg _ (ih _)

/-- Emitted instructions are found with their operand fields. -/
theorem map_arg_locateAll (e : Encoding) (offset : Nat) (ps : List (Opcode × Nat)) :
    (locateAll e offset ps).map (·.arg) = ps.map (·.2) := by
  induction ps generalizing offset with
  | nil => rfl
  | cons p ps ih => exact congrArg _ (ih _)

/-- **Emitted code.** The walk of emitted instructions finds each of them again. -/
theorem walks_flatMap_emit {e : Encoding} (ops : List (Opcode × Nat)) (offset : Nat)
    (h : ∀ p ∈ ops, p.2 ≤ e.maxOperand ∧ (p.1.hasArg = false → p.2 = 0)) :
    Walks e offset (ops.flatMap fun p => emit e p.1 p.2) (locateAll e offset ops) := by
  induction ops generalizing offset with
  | nil => exact .nil offset
  | cons p ops ih =>
    obtain ⟨op, arg⟩ := p
    obtain ⟨hmax, hnone⟩ := h (op, arg) List.mem_cons_self
    have hw := e.width_pos op.hasArg
    rw [List.flatMap_cons, emit, List.cons_append]
    refine .cons (locate_emit offset _ hmax hnone) ?_
    rw [List.drop_left' (Bytes.length_ofNat _ _)]
    exact ih _ fun p hp => h p (List.mem_cons_of_mem _ hp)

end StackCode

import Mathlib.Data.List.Forall2
import Mathlib.Data.List.Nodup
import StackCode.Proofs.Fallible
import StackCode.Proofs.Tables

namespace StackCode

/-!
# Routines by position

Handles name instructions of a pool, and most of a pool may be out of use.  What counts of a body is
its shape: the live instructions in order, where a jump names the position of its target.

* `Body.Sound` — what `Routine.ofDraft?` checks, with instructions that fit their opcodes.
* `Routine.sound_of_ofDraft?` — drafts of fitting instructions make sound routines.
* `Body.shape` — the live instructions, each jump with the position of its target.
* `Body.forall₂_code_of_shape` — bodies of one shape have the same instructions.
* `consts_of_shape`, `names_of_shape`, `varnames_of_shape`, `stacksize_of_shape` — what follows from
  the operands follows from the shape.
-/

namespace Body

variable {b : Body}

/-! ### Sound bodies -/

/-- The live instructions are known to the pool and stand in the sequence once, their operands fit
    their opcodes, and the cells they use are declared. -/
structure Sound (b : Body) : Prop where
  known : ∀ id ∈ b.instrs, ∃ i, b.pool.get? id = some i
  distinct : b.instrs.Nodup
  fits : ∀ id ∈ b.instrs, ∀ i, b.pool.get? id = some i →
    i.operand.fits i.opcode.operandClass = true
  declared : ∀ id ∈ b.instrs, ∀ i, b.pool.get? id = some i →
    ∀ s, i.operand = .freeVar s → s ∈ b.cellvars ++ b.freevars

/-- A known instruction passes the check when it is new, its variable is declared, and the rest
    passes. -/
theorem check_cons {seen rest : List Handle} {id : Handle} {i : Instr}
    (hget : b.pool.get? id = some i) :
    b.check seen (id :: rest) = .ok () ↔
      id ∉ seen ∧ (∀ s, i.operand = .freeVar s → s ∈ b.cellvars ++ b.freevars) ∧
        b.check (id :: seen) rest = .ok () := by
  rw [check, hget]
  dsimp only
  split
  · rename_i hseen
    exact ⟨nofun, fun h => absurd hseen h.1⟩
  · rename_i hseen
    split
    · rename_i s hs
      split
      · rename_i hmem
        refine ⟨fun h => ⟨hseen, fun t ht => ?_, h⟩, fun h => h.2.2⟩
        rw [hs] at ht
        cases ht
        exact List.mem_append.2 hmem
      · rename_i hmem
        exact ⟨nofun, fun h => absurd (List.mem_append.1 (h.2.1 s hs)) hmem⟩
    · rename_i hplain
      exact ⟨fun h => ⟨hseen, fun s hs => absurd hs (hplain s), h⟩, fun h => h.2.2⟩

/-- What the check of a sequence says of it. -/
theorem check_eq_ok {seen ids : List Handle} :
    b.check seen ids = .ok () ↔
      ids.Nodup ∧ ∀ id ∈ ids, id ∉ seen ∧ ∃ i, b.pool.get? id = some i ∧
        ∀ s, i.operand = .freeVar s → s ∈ b.cellvars ++ b.freevars := by
  -- The induction follows the check, where `seen` grows by the handle that was checked last.
  induction ids generalizing seen with
  | nil => simp [check]
  | cons id rest ih =>
    rw [List.forall_mem_cons, List.nodup_cons]
    cases hget : b.pool.get? id with
    | none =>
      rw [check, hget]
      exact ⟨nofun, fun ⟨_, ⟨_, i, hi, _⟩, _⟩ => nomatch hi⟩
    | some i =>
      rw [check_cons hget, ih]
      constructor
      · rintro ⟨hseen, hfree, hrest, h⟩
        refine ⟨⟨fun hid => (h id hid).1 List.mem_cons_self, hrest⟩, ⟨hseen, i, rfl, hfree⟩, ?_⟩
        exact fun j hj => ⟨fun hmem => (h j hj).1 (List.mem_cons_of_mem _ hmem), (h j hj).2⟩
      · rintro ⟨⟨hid, hrest⟩, ⟨hseen, j, hj, hfree⟩, h⟩
        cases hj
        refine ⟨hseen, hfree, hrest, fun j hj => ⟨fun hmem => ?_, (h j hj).2⟩⟩
        rcases List.mem_cons.1 hmem with rfl | hmem
        · exact hid hj
        · exact (h j hj).1 hmem

/-- The code has the live instructions that the pool knows. -/
theorem mem_code {id : Handle} {i : Instr} :
    (id, i) ∈ b.code ↔ id ∈ b.instrs ∧ b.pool.get? id = some i := by
  rw [code, List.mem_filterMap]
  constructor
  · rintro ⟨j, hj, h⟩
    obtain ⟨k, hk, heq⟩ := Option.map_eq_some_iff.1 h
    cases heq
    exact ⟨hj, hk⟩
  · rintro ⟨hid, hget⟩
    exact ⟨id, hid, by rw [hget]; rfl⟩

/-- The check and the fit of the instructions make a body sound. -/
theorem sound_iff : b.Sound ↔ b.check [] b.instrs = .ok () ∧
    ∀ entry ∈ b.code, entry.2.operand.fits entry.2.opcode.operandClass = true := by
  rw [check_eq_ok]
  constructor
  · intro h
    refine ⟨⟨h.distinct, fun id hid => ⟨List.not_mem_nil, ?_⟩⟩, fun entry hentry => ?_⟩
    · obtain ⟨i, hi⟩ := h.known id hid
      exact ⟨i, hi, h.declared id hid i hi⟩
    · obtain ⟨hid, hget⟩ := mem_code.1 hentry
      exact h.fits entry.1 hid entry.2 hget
  · rintro ⟨⟨hdistinct, h⟩, hfits⟩
    refine ⟨fun id hid => ?_, hdistinct, fun id hid i hi => hfits (id, i) (mem_code.2 ⟨hid, hi⟩),
      fun id hid i hi s hs => ?_⟩
    · obtain ⟨-, i, hi, -⟩ := h id hid
      exact ⟨i, hi⟩
    · obtain ⟨-, j, hj, hfree⟩ := h id hid
      rw [hi] at hj
      cases hj
      exact hfree s hs

/-- Soundness is decided by the check and the operands of the code. -/
instance : Decidable b.Sound := decidable_of_iff _ sound_iff.symm

/-! ### The code of a sound body -/

/-- The handles of the code are the live ones, none of them left out. -/
theorem map_fst_code (h : b.Sound) : b.code.map (·.1) = b.instrs := by
  -- Every live handle is known, so that none of them is left out.
  have hknown := h.known
  unfold code
  generalize b.instrs = ids at hknown
  induction ids with
  | nil => rfl
  | cons id rest ih =>
    obtain ⟨i, hi⟩ := hknown id List.mem_cons_self
    rw [List.filterMap_cons, hi]
    dsimp only [Option.map_some]
    rw [List.map_cons, ih fun j hj => hknown j (List.mem_cons_of_mem _ hj)]

/-- The code is as long as the sequence. -/
theorem length_code (h : b.Sound) : b.code.length = b.instrs.length := by
  rw [← map_fst_code h, List.length_map]

/-- The code at a position is the handle there with its instruction. -/
theorem getElem_code (h : b.Sound) {k : Nat} (hk : k < b.code.length) (hk' : k < b.instrs.length) :
    b.code[k].1 = b.instrs[k] ∧ b.pool.get? b.instrs[k] = some b.code[k].2 := by
  have hid := List.getElem_of_eq (map_fst_code h) (i := k) (by simpa using hk)
  rw [List.getElem_map] at hid
  obtain ⟨-, hget⟩ := mem_code.1 (List.getElem_mem hk)
  exact ⟨hid, hid ▸ hget⟩

/-- An entry of the code is the handle at its position, and what the pool has there. -/
theorem getElem?_code (h : b.Sound) {k : Nat} {entry : Handle × Instr} :
    b.code[k]? = some entry ↔
      b.instrs[k]? = some entry.1 ∧ b.pool.get? entry.1 = some entry.2 := by
  have hinstrs : b.instrs[k]? = b.code[k]?.map (·.1) := by
    rw [← List.getElem?_map, map_fst_code h]
  constructor
  · intro hentry
    refine ⟨by rw [hinstrs, hentry]; rfl, ?_⟩
    exact (mem_code.1 (List.mem_of_getElem? hentry)).2
  · rintro ⟨hid, hget⟩
    rw [hinstrs] at hid
    obtain ⟨entry', hentry', hfst⟩ := Option.map_eq_some_iff.1 hid
    have hget' := (mem_code.1 (List.mem_of_getElem? hentry')).2
    rw [hfst, hget] at hget'
    rw [hentry', Prod.ext hfst (Option.some.inj hget').symm]

/-- The position of a live instruction, in the code. -/
theorem indexOf?_eq (h : b.Sound) (id : Handle) :
    b.indexOf? id = b.code.findIdx? (·.1 = id) := by
  rw [indexOf?, ← map_fst_code h, List.findIdx?_map]
  rfl

/-- Positions are within the sequence. -/
theorem indexOf?_lt {id : Handle} {k : Nat} (h : b.indexOf? id = some k) : k < b.instrs.length :=
  (List.findIdx?_eq_some_iff_getElem.1 h).1

/-! ### Shapes -/

/-- An operand with the position of its target in place of a handle; a target out of use stands
    behind the last position. -/
def placeOperand (b : Body) : Operand → Operand
  | .jump t => .jump ((b.indexOf? t).getD b.instrs.length)
  | o => o

/-- The live instructions in order, each jump with the position of its target. -/
def shape (b : Body) : List Instr :=
  b.code.map fun entry => ⟨entry.2.opcode, b.placeOperand entry.2.operand⟩

/-- A shape has one instruction for each live one. -/
theorem length_shape (h : b.Sound) : b.shape.length = b.instrs.length := by
  rw [shape, List.length_map, length_code h]

/-- Every operand of the code stands in the shape, a jump with the position of its target. -/
theorem exists_mem_shape {o : Operand} (h : o ∈ b.operands) :
    ∃ i ∈ b.shape, i.operand = b.placeOperand o := by
  obtain ⟨entry, hentry, rfl⟩ := List.mem_map.1 h
  exact ⟨_, List.mem_map.2 ⟨entry, hentry, rfl⟩, rfl⟩

/-- A shape keeps the opcodes. -/
@[simp] theorem opcodes_shape (b : Body) : b.shape.map (·.opcode) = b.opcodes := by
  rw [shape, List.map_map]
  rfl

/-- An operand fits whether a jump goes by handles or by positions. -/
theorem fits_placeOperand (o : Operand) (c : OperandClass) :
    (b.placeOperand o).fits c = o.fits c := by
  cases o
  case jump t => cases c <;> rfl
  all_goals rfl

/-- Instructions of a shape fit their opcodes. -/
theorem fits_shape (h : b.Sound) : ∀ i ∈ b.shape, i.operand.fits i.opcode.operandClass = true := by
  intro i hi
  obtain ⟨⟨id, j⟩, hj, rfl⟩ := List.mem_map.1 hi
  obtain ⟨hid, hget⟩ := mem_code.1 hj
  exact (fits_placeOperand j.operand _).trans (h.fits id hid j hget)

/-- Operands of two bodies that are the same, where jumps lead to live instructions at the same
    position. -/
inductive SameOperand (b b' : Body) : Operand → Operand → Prop where
  | jump {t t' : Handle} {k : Nat} (h : b.indexOf? t = some k) (h' : b'.indexOf? t' = some k) :
      SameOperand b b' (.jump t) (.jump t')
  | plain {o : Operand} (h : o.target? = none) : SameOperand b b' o o

/-- Operands that a shape does not tell apart are the same, as long as jumps lead to live
    instructions. -/
theorem sameOperand_of_placeOperand {b' : Body} (hlen : b.instrs.length = b'.instrs.length)
    {o o' : Operand} (h : b.placeOperand o = b'.placeOperand o')
    (hlive : ∀ t, b.placeOperand o = .jump t → t < b.instrs.length) : SameOperand b b' o o' := by
  cases o with
  | jump t =>
    cases o' with
    | jump t' =>
      have hlt := hlive _ rfl
      have hsame := Operand.jump.inj h
      cases hindex : b.indexOf? t with
      | none =>
        rw [hindex, Option.getD_none] at hlt
        exact absurd hlt (Nat.lt_irrefl _)
      | some k =>
        rw [hindex, Option.getD_some] at hlt hsame
        cases hindex' : b'.indexOf? t' with
        | none =>
          rw [hindex', Option.getD_none, ← hlen] at hsame
          exact absurd hlt (hsame ▸ Nat.lt_irrefl _)
        | some k' =>
          rw [hindex', Option.getD_some] at hsame
          exact .jump hindex (hsame ▸ hindex')
    | _ => cases h
  | _ =>
    -- The other operands stand for themselves.
    cases o'
    all_goals cases h
    all_goals exact .plain rfl

/-- **Bodies of one shape.** They have the same opcode and the same operand at every position. -/
theorem forall₂_code_of_shape {b' : Body} (hb : b.Sound) (hb' : b'.Sound)
    (h : b.shape = b'.shape)
    (hlive : ∀ i ∈ b.shape, ∀ t, i.operand = .jump t → t < b.shape.length) :
    List.Forall₂ (fun entry entry' => entry.2.opcode = entry'.2.opcode ∧
      SameOperand b b' entry.2.operand entry'.2.operand) b.code b'.code := by
  have hlen : b.instrs.length = b'.instrs.length := by
    rw [← length_shape hb, h, length_shape hb']
  refine List.forall₂_iff_get.2 ⟨by rw [length_code hb, length_code hb', hlen], ?_⟩
  intro k hk hk'
  rw [List.get_eq_getElem, List.get_eq_getElem]
  have hget : Instr.mk b.code[k].2.opcode (b.placeOperand b.code[k].2.operand) =
      ⟨b'.code[k].2.opcode, b'.placeOperand b'.code[k].2.operand⟩ := by
    have hshape := List.getElem_of_eq h (i := k) (by simpa [shape] using hk)
    simpa [shape] using hshape
  obtain ⟨hop, hoperand⟩ := Instr.mk.inj hget
  refine ⟨hop, sameOperand_of_placeOperand hlen hoperand fun t ht => ?_⟩
  rw [← length_shape hb]
  exact hlive _ (List.mem_map.2 ⟨b.code[k], List.getElem_mem hk, rfl⟩) t ht

/-! ### What follows from a shape -/

/-- A selection that takes no jumps finds the same operands in a shape. -/
theorem filterMap_operands {α : Type} (select : Operand → Option α)
    (h : ∀ t, select (.jump t) = none) :
    b.operands.filterMap select = (b.shape.map (·.operand)).filterMap select := by
  rw [operands, shape, List.map_map, List.filterMap_map, List.filterMap_map]
  refine congrFun (congrArg _ (funext fun entry => ?_)) _
  show select entry.2.operand = select (b.placeOperand entry.2.operand)
  cases entry.2.operand
  case jump t => exact (h t).trans (h _).symm
  all_goals rfl

/-- A stack effect depends on a number at most, and a shape keeps numbers. -/
theorem map_stackEffect_shape (b : Body) :
    b.shape.map Instr.stackEffect = b.code.map (·.2.stackEffect) := by
  rw [shape, List.map_map]
  refine List.map_congr_left fun entry _ => ?_
  obtain ⟨-, ⟨opcode, operand⟩⟩ := entry
  cases operand <;> rfl

section

variable {b' : Body} (h : b.shape = b'.shape)

include h

/-- Constants follow from the shape. -/
theorem consts_of_shape : b.consts = b'.consts := by
  rw [consts, consts, filterMap_operands _ fun _ => rfl, filterMap_operands _ fun _ => rfl, h]

/-- Names follow from the shape. -/
theorem names_of_shape : b.names = b'.names := by
  rw [names, names, filterMap_operands _ fun _ => rfl, filterMap_operands _ fun _ => rfl, h]

/-- Variables follow from the shape, with the parameters that come before them. -/
theorem varnames_of_shape (hsig : b.signature = b'.signature) : b.varnames = b'.varnames := by
  rw [varnames, varnames, filterMap_operands _ fun _ => rfl, filterMap_operands _ fun _ => rfl, h,
    hsig]

/-- Opcodes follow from the shape. -/
theorem opcodes_of_shape : b.opcodes = b'.opcodes := by
  rw [← opcodes_shape, ← opcodes_shape, h]

/-- The depth of the stack follows from the shape. -/
theorem stacksize_of_shape : b.stacksize = b'.stacksize := by
  rw [stacksize, stacksize, ← map_stackEffect_shape, ← map_stackEffect_shape, h]

end

end Body

/-- Drafts of instructions that fit their opcodes make sound routines. -/
theorem Routine.sound_of_ofDraft? {d : Draft} {c : Routine} (h : Routine.ofDraft? d = .ok c)
    (hfits : ∀ entry ∈ d.code, entry.2.operand.fits entry.2.opcode.operandClass = true) :
    c.Sound := by
  unfold Routine.ofDraft? at h
  obtain ⟨_, hcheck, h⟩ := bind_eq_ok.1 h
  cases h
  exact Body.sound_iff.2 ⟨hcheck, hfits⟩

end StackCode

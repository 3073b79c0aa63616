import StackCode.Proofs.Routine.Ownership
import StackCode.Proofs.Routine.Storable

namespace StackCode

/-!
# Routines under other handles

Handles are the places of instructions in a pool, and storing does not depend on them.

* `StoreError.mapHandles`, `Body.positionOf` — an error with positions in place of handles.
* `Body.LikeOperand`, `Body.LikeEntry`, `Body.LikePlaced`, `Body.LikeCode` — operands, instructions,
  placed instructions and bodies that are the same but for handles.
* `Body.LikeCode.layout`, `Body.LikeCode.storedLines`, `Body.LikeCode.codeBytes` — such bodies have
  the same offsets, lines and bytes.
* `Routine.Renumbered` — routines that differ in handles, and in what is out of use.
* `Routine.store_of_renumbered` — they have the same unit, or none, and then for the same reason.
-/

/-! ### Lists whose elements correspond -/

/-- Selections of corresponding elements that agree select the same. -/
theorem filterMap_congr₂ {α β γ : Type} {f : α → Option γ} {g : β → Option γ} {xs : List α}
    {ys : List β} (h : List.Forall₂ (fun x y => f x = g y) xs ys) :
    xs.filterMap f = ys.filterMap g := by
  induction h with
  | nil => rfl
  | cons hx _ ih => rw [List.filterMap_cons, List.filterMap_cons, hx, ih]

/-! ### Outcomes with other errors -/

section

variable {ε ε' α β γ : Type}

/-- An error is put through `f` whichever part it comes from. -/
theorem mapError_bind (f : ε → ε') (x : Except ε α) (k : α → Except ε β) :
    (x >>= k).mapError f = x.mapError f >>= fun a => (k a).mapError f := by
  cases x <;> rfl

/-- Two outcomes are the same up to their errors when both have the same value, or both have errors
    that are the same. -/
theorem mapError_eq_mapError_iff {f : ε → γ} {g : ε' → γ} {x : Except ε α} {y : Except ε' α} :
    x.mapError f = y.mapError g ↔
      (∃ a, x = .ok a ∧ y = .ok a) ∨ ∃ e e', x = .error e ∧ y = .error e' ∧ f e = g e' := by
  cases x <;> cases y <;> simp [Except.mapError, eq_comm]

/-- Traversals of lists whose elements have the same outcomes, up to errors, have the same
    outcome. -/
theorem mapError_mapM_congr {f : ε → γ} {g : ε' → γ} {k : α → Except ε β} {k' : α → Except ε' β}
    {xs ys : List α}
    (h : List.Forall₂ (fun x y => (k x).mapError f = (k' y).mapError g) xs ys) :
    (xs.mapM k).mapError f = (ys.mapM k').mapError g := by
  induction h with
  | nil => rfl
  | cons hx _ ih =>
    simp only [List.mapM_cons, mapError_bind, hx, ih]
    rfl

end

/-- The error with its handles put through `f`. -/
def StoreError.mapHandles (f : Handle → Handle) : StoreError → StoreError
  | .unresolvedJump source op target => .unresolvedJump (f source) op (f target)
  | .backwardRelativeJump source op target => .backwardRelativeJump (f source) op (f target)
  | err => err

namespace Body

variable {b b' : Body} {id : Handle} {k : Nat} {o o' : Operand} {p p' : Placed}

/-! ### Positions -/

/-- The position of a live instruction.  What is out of use stands behind the last position. -/
def positionOf (b : Body) (id : Handle) : Nat := (b.indexOf? id).getD b.instrs.length

/-- The position of a live instruction is the one it stands at. -/
theorem indexOf?_getElem (h : b.instrs.Nodup) (hk : k < b.instrs.length) :
    b.indexOf? b.instrs[k] = some k := by
  refine List.findIdx?_eq_some_iff_getElem.2 ⟨hk, by simp, fun j hj => ?_⟩
  simpa using fun heq => Nat.ne_of_lt hj ((h.getElem_inj_iff).1 heq)

/-- Operands of two bodies that are the same, where jumps lead to live instructions at the same
    position or, both of them, to instructions out of use. -/
inductive LikeOperand (b b' : Body) : Operand → Operand → Prop where
  | live {o o' : Operand} (h : SameOperand b b' o o') : LikeOperand b b' o o'
  | dead {t t' : Handle} (h : t ∉ b.instrs) (h' : t' ∉ b'.instrs) :
      LikeOperand b b' (.jump t) (.jump t')

/-- Like operands are jumps whose targets have the same position, or none, or else they are the
    same. -/
theorem LikeOperand.jump_or_plain (h : LikeOperand b b' o o') :
    (∃ t t', o = .jump t ∧ o' = .jump t' ∧ b.indexOf? t = b'.indexOf? t') ∨
      o = o' ∧ o.target? = none := by
  cases h with
  | live h =>
    cases h with
    | jump h h' => exact .inl ⟨_, _, rfl, rfl, h.trans h'.symm⟩
    | plain h => exact .inr ⟨rfl, h⟩
  | dead h h' =>
    refine .inl ⟨_, _, rfl, rfl, ?_⟩
    rw [indexOf?_eq_none.2 h, indexOf?_eq_none.2 h']

/-- Like operands look the same by position, those out of use included. -/
theorem LikeOperand.placeOperand (h : LikeOperand b b' o o')
    (hlen : b.instrs.length = b'.instrs.length) : b.placeOperand o = b'.placeOperand o' := by
  rcases h.jump_or_plain with ⟨t, t', rfl, rfl, hindex⟩ | ⟨rfl, hplain⟩
  · rw [Body.placeOperand, Body.placeOperand, hindex, hlen]
  · cases o
    case jump t => cases hplain
    all_goals rfl

/-- Operands that a shape does not tell apart are alike. -/
theorem likeOperand_of_placeOperand (hlen : b.instrs.length = b'.instrs.length)
    (h : b.placeOperand o = b'.placeOperand o') : LikeOperand b b' o o' := by
  have hlive : ∀ {c : Body} {t : Handle}, t ∈ c.instrs →
      ∀ k, c.placeOperand (.jump t) = .jump k → k < c.instrs.length := by
    intro c t ht k hk
    obtain ⟨j, hj⟩ := Option.ne_none_iff_exists'.1 (mt indexOf?_eq_none.1 (not_not.2 ht))
    rw [Body.placeOperand, hj, Option.getD_some] at hk
    exact Operand.jump.inj hk ▸ indexOf?_lt hj
  cases o with
  | jump t =>
    by_cases ht : t ∈ b.instrs
    · exact .live (sameOperand_of_placeOperand hlen h (hlive ht))
    · rw [Body.placeOperand, indexOf?_eq_none.2 ht, Option.getD_none, hlen] at h
      cases o' with
      | jump t' =>
        -- A live target would stand before the end.
        exact .dead ht fun ht' => Nat.lt_irrefl _ (hlive ht' _ h.symm)
      | _ => cases h
  | _ =>
    refine .live (sameOperand_of_placeOperand hlen h fun k hk => ?_)
    cases hk

/-- Instructions of two bodies that differ in handles only, and have the same line. -/
structure LikeEntry (b b' : Body) (lineOf lineOf' : Handle → Option UInt32)
    (entry entry' : Handle × Instr) : Prop where
  opcode : entry.2.opcode = entry'.2.opcode
  operand : LikeOperand b b' entry.2.operand entry'.2.operand
  line : lineOf entry.1 = lineOf' entry'.1

/-- The instructions of bodies of one shape are alike when they have the same lines. -/
theorem forall₂_of_shape {lineOf lineOf' : Handle → Option UInt32} (hb : b.Sound)
    (hb' : b'.Sound) (h : b.shape = b'.shape)
    (hlines : b.code.map (fun entry => lineOf entry.1) =
      b'.code.map fun entry => lineOf' entry.1) :
    List.Forall₂ (LikeEntry b b' lineOf lineOf') b.code b'.code := by
  have hlen : b.instrs.length = b'.instrs.length := by
    rw [← length_shape hb, h, length_shape hb']
  refine List.forall₂_iff_get.2 ⟨by rw [length_code hb, length_code hb', hlen], ?_⟩
  intro k hk hk'
  rw [List.get_eq_getElem, List.get_eq_getElem]
  have hinstr : Instr.mk b.code[k].2.opcode (b.placeOperand b.code[k].2.operand) =
      ⟨b'.code[k].2.opcode, b'.placeOperand b'.code[k].2.operand⟩ := by
    simpa [Body.shape] using List.getElem_of_eq h (by simpa [Body.shape] using hk)
  have hline : lineOf b.code[k].1 = lineOf' b'.code[k].1 := by
    have hget := List.getElem_of_eq hlines (i := k) (by simpa using hk)
    rwa [List.getElem_map, List.getElem_map] at hget
  obtain ⟨hopcode, hoperand⟩ := Instr.mk.inj hinstr
  exact ⟨hopcode, likeOperand_of_placeOperand hlen hoperand, hline⟩

/-! ### Places -/

/-- Placed instructions that differ in handles only, with the lines that they own. -/
structure LikePlaced (b b' : Body) (p p' : Placed) : Prop where
  offset : p.offset = p'.offset
  opcode : p.instr.opcode = p'.instr.opcode
  operand : LikeOperand b b' p.instr.operand p'.instr.operand
  position : b.positionOf p.id = b'.positionOf p'.id
  line : b.ownedLine? p.id = b'.ownedLine? p'.id

/-- The bodies have the same opcode and the same operand at every position, and the instruction
    there owns the same line. -/
def LikeCode (b b' : Body) : Prop :=
  List.Forall₂ (LikeEntry b b' b.ownedLine? b'.ownedLine?) b.code b'.code

namespace LikeCode

variable (h : LikeCode b b') (hb : b.Sound) (hb' : b'.Sound)

include h hb hb'

/-- Bodies of like code have as many live instructions. -/
theorem length_eq : b.instrs.length = b'.instrs.length := by
  rw [← length_code hb, ← length_code hb', List.Forall₂.length_eq h]

/-- Bodies of the same code have the same shape. -/
theorem shape : b.shape = b'.shape := by
  have hlen := h.length_eq hb hb'
  rw [Body.shape, Body.shape, ← List.forall₂_eq_eq_eq, List.forall₂_map_left_iff,
    List.forall₂_map_right_iff]
  refine h.imp fun entry entry' hentry => ?_
  rw [hentry.opcode, hentry.operand.placeOperand hlen]

/-- **Layout.** Instructions at the same position are placed at the same offset. -/
theorem layout (e : Encoding) : List.Forall₂ (LikePlaced b b') (b.layout e) (b'.layout e) := by
  have hcode := List.Forall₂.length_eq h
  refine List.forall₂_iff_get.2 ⟨by rw [length_layout, length_layout, hcode], fun k hk hk' => ?_⟩
  rw [length_layout] at hk hk'
  obtain ⟨hopcode, hoperand, hline⟩ := (List.forall₂_iff_get.1 h).2 k hk hk'
  rw [List.get_eq_getElem, List.get_eq_getElem, getElem_layout k _ hk, getElem_layout k _ hk']
  refine ⟨?_, hopcode, hoperand, ?_, hline⟩
  · rw [opcodes_of_shape (h.shape hb hb')]
  · have hpos : ∀ {c : Body}, c.Sound → (hk : k < c.code.length) →
        c.positionOf c.code[k].1 = k := by
      intro c hc hk
      have hinstrs : k < c.instrs.length := length_code hc ▸ hk
      rw [positionOf, (getElem_code hc hk hinstrs).1, indexOf?_getElem hc.distinct hinstrs,
        Option.getD_some]
    rw [hpos hb hk, hpos hb' hk']

/-- Both bodies have a layout of 32-bit offsets, or the same offset is too large for one. -/
theorem layout?_cases (e : Encoding) :
    (b.layout? e = .ok (b.layout e) ∧ b'.layout? e = .ok (b'.layout e)) ∨
      ∃ size, b.layout? e = .error (.tooLarge size) ∧ b'.layout? e = .error (.tooLarge size) := by
  have hoffsets : (b.layout e).map (·.offset) = (b'.layout e).map (·.offset) := by
    rw [← List.forall₂_eq_eq_eq, List.forall₂_map_left_iff, List.forall₂_map_right_iff]
    exact (h.layout hb hb' e).imp fun p p' hp => hp.offset
  have hsize : b.codeSize e = b'.codeSize e := by
    rw [codeSize_eq, codeSize_eq, opcodes_of_shape (h.shape hb hb')]
  unfold Body.layout?
  dsimp only
  rw [hoffsets, hsize]
  cases ((b'.layout e).map (·.offset) ++ [b'.codeSize e]).find? (UInt32.size ≤ ·) with
  | none => exact .inl ⟨rfl, rfl⟩
  | some size => exact .inr ⟨size, rfl, rfl⟩

/-- The stored lines of both bodies are the same. -/
theorem storedLines (e : Encoding) :
    b.storedLines (b.layout e) = b'.storedLines (b'.layout e) := by
  rw [storedLines_layout hb, storedLines_layout hb']
  refine congrArg (List.map LineStart.ofEntry)
    (filterMap_congr₂ ((h.layout hb hb' e).imp fun p p' hp => ?_))
  rw [hp.line, hp.offset]

/-! ### Bytes -/

/-- The field of a jump has the same value in both bodies, or none for the same reason. -/
theorem fieldValue_jump (tables : Tables) (e : Encoding) (hp : LikePlaced b b' p p') {t t' : Handle}
    (ht : p.instr.operand = .jump t) (ht' : p'.instr.operand = .jump t')
    (hindex : b.indexOf? t = b'.indexOf? t') :
    (fieldValue tables e (b.layout e) p).mapError (·.mapHandles b.positionOf) =
      (fieldValue tables e (b'.layout e) p').mapError (·.mapHandles b'.positionOf) := by
  have hposition : b.positionOf t = b'.positionOf t' := by
    rw [positionOf, positionOf, hindex, h.length_eq hb hb']
  -- Offsets are those of positions, and the targets are at one position.
  have hplace : offsetOf? (b.layout e) t = offsetOf? (b'.layout e) t' := by
    rw [offsetOf?_layout hb, offsetOf?_layout hb', hindex, opcodes_of_shape (h.shape hb hb')]
  unfold Body.fieldValue
  rw [ht, ht', hp.opcode, hp.offset]
  dsimp only
  rw [hplace]
  cases offsetOf? (b'.layout e) t' with
  | none =>
    show Except.error (StoreError.unresolvedJump _ _ _) = .error (.unresolvedJump _ _ _)
    rw [hp.position, hposition]
  | some offset =>
    dsimp only
    split
    · split
      · show Except.error (StoreError.backwardRelativeJump _ _ _) =
          .error (.backwardRelativeJump _ _ _)
        rw [hp.position, hposition]
      · rfl
    · rfl

/-- **Fields.** The field of an instruction has the same value in both bodies, or none for the same
    reason. -/
theorem fieldValue (tables : Tables) (e : Encoding) (hp : LikePlaced b b' p p') :
    (fieldValue tables e (b.layout e) p).mapError (·.mapHandles b.positionOf) =
      (fieldValue tables e (b'.layout e) p').mapError (·.mapHandles b'.positionOf) := by
  rcases hp.operand.jump_or_plain with ⟨t, t', ht, ht', hindex⟩ | ⟨hsame, hplain⟩
  · exact h.fieldValue_jump hb hb' tables e hp ht ht' hindex
  · unfold Body.fieldValue
    rw [← hsame, hp.opcode]
    cases hoperand : p.instr.operand with
    | jump t =>
      rw [hoperand] at hplain
      cases hplain
    | freeVar s =>
      dsimp only
      cases tables.cells.idxOf? s <;> rfl
    | _ => rfl

/-- An instruction is stored as the same bytes in both bodies, or fails for the same reason. -/
theorem instrBytes (tables : Tables) (e : Encoding) (hp : LikePlaced b b' p p') :
    (instrBytes tables e (b.layout e) p).mapError (·.mapHandles b.positionOf) =
      (instrBytes tables e (b'.layout e) p').mapError (·.mapHandles b'.positionOf) := by
  unfold Body.instrBytes
  rw [mapError_bind, mapError_bind, h.fieldValue hb hb' tables e hp, hp.opcode, hp.offset]
  refine congrArg _ (funext fun arg => ?_)
  split <;> rfl

/-- **Bytes.** When the derived tables are the same as well, both bodies have the same bytes, or
    none for the same reason. -/
theorem codeBytes (htables : b.tables = b'.tables) (e : Encoding) :
    (b.codeBytes e (b.layout e)).mapError (·.mapHandles b.positionOf) =
      (b'.codeBytes e (b'.layout e)).mapError (·.mapHandles b'.positionOf) := by
  have hbytes := mapError_mapM_congr ((h.layout hb hb' e).imp fun p p' hp =>
    h.instrBytes hb hb' b.tables e hp)
  unfold Body.codeBytes
  rw [mapError_bind, mapError_bind, hbytes, htables]
  rfl

end LikeCode

end Body

namespace Routine

variable {c c' : Routine} {e : Encoding}

/-- Routines that differ in the handles of their instructions and in what is out of use: their pools
    may hold other instructions, jumpers and thieves. -/
structure Renumbered (c c' : Routine) : Prop where
  /-- At every position there are the same opcode, the same operand and the same line. -/
  code : List.Forall₂ (Body.LikeEntry c.toBody c'.toBody c.lines.get? c'.lines.get?) c.code c'.code
  /-- Only live instructions have lines. -/
  lines : ∀ entry ∈ c.lines.entries, entry.1 ∈ c.instrs
  lines' : ∀ entry ∈ c'.lines.entries, entry.1 ∈ c'.instrs
  signature : c.signature = c'.signature
  cellvars : c.cellvars = c'.cellvars
  freevars : c.freevars = c'.freevars
  name : c.name = c'.name
  filename : c.filename = c'.filename
  firstlineno : c.firstlineno = c'.firstlineno
  flags : c.flags = c'.flags

/-- When only live instructions have lines, each of them owns its own. -/
theorem ownedLine?_of_live {b : Body} (hlines : ∀ entry ∈ b.lines.entries, entry.1 ∈ b.instrs)
    (id : Handle) : b.ownedLine? id = b.lines.get? id := by
  have hnone : b.lines.entries.find? (fun entry => b.leavesTo id entry.1) = none := by
    refine List.find?_eq_none.2 fun entry hentry hleaves => ?_
    exact (Body.leavesTo_iff.1 hleaves).1 (hlines entry hentry)
  rw [Body.ownedLine?, hnone, Option.map_none, Option.or_none]

/-- Renumbered routines have like code: live instructions own the lines of their own entries
    only. -/
theorem Renumbered.likeCode (h : Renumbered c c') : Body.LikeCode c.toBody c'.toBody := by
  refine h.code.imp fun entry entry' hentry => ⟨hentry.opcode, hentry.operand, ?_⟩
  rw [ownedLine?_of_live h.lines, ownedLine?_of_live h.lines', hentry.line]

/-- Renumbered routines are alike, so that the same bytes and lines make the same unit of both. -/
theorem Renumbered.alike (h : Renumbered c c') (hc : c.Sound) (hc' : c'.Sound) : Alike c c' where
  shape := h.likeCode.shape hc hc'
  signature := h.signature
  cellvars := h.cellvars
  freevars := h.freevars
  name := h.name
  filename := h.filename
  firstlineno := h.firstlineno
  flags := h.flags

/-- What is left of storing a routine that has a layout. -/
theorem storeAs?_of_layout {placed : List Placed} (h : c.layout? e = .ok placed) :
    c.storeAs? e = (do
      let code ← c.codeBytes e placed
      let lineTable ← (LineTable.encode (c.storedLines placed) c.firstlineno
        e.lineFormat).mapError .lineTable
      return c.stored code lineTable) := by
  rw [storeAs?, h]
  rfl

/-- **Outcomes.** Under every encoding, the units are the same or the errors are, up to handles. -/
theorem Renumbered.mapError_storeAs? (h : Renumbered c c') (hc : c.Sound) (hc' : c'.Sound)
    (e : Encoding) :
    (c.storeAs? e).mapError (·.mapHandles c.positionOf) =
      (c'.storeAs? e).mapError (·.mapHandles c'.positionOf) := by
  have halike := h.alike hc hc'
  rcases h.likeCode.layout?_cases hc hc' e with ⟨hlayout, hlayout'⟩ | ⟨size, hlarge, hlarge'⟩
  · rw [storeAs?_of_layout hlayout, storeAs?_of_layout hlayout', mapError_bind, mapError_bind,
      h.likeCode.codeBytes hc hc' halike.tables e, h.likeCode.storedLines hc hc' e, h.firstlineno]
    refine congrArg _ (funext fun code => ?_)
    simp only [halike.stored]
    cases LineTable.encode (c'.storedLines (c'.layout e)) c'.firstlineno e.lineFormat <;> rfl
  · -- A size names no instructions.
    rw [storeAs?, storeAs?, hlarge, hlarge']
    rfl

/-- **Renumbering.** Sound routines that differ in handles, and in what is out of use, have the same
    unit under every encoding, or neither has one.  Then the reason is the same for both: where it
    names instructions, they stand at the same positions or are out of use. -/
theorem store_of_renumbered (hc : c.Sound) (hc' : c'.Sound) (h : Renumbered c c') (e : Encoding) :
    (∃ unit, c.store? { encoding := some e } = .ok unit ∧
      c'.store? { encoding := some e } = .ok unit) ∨
    ∃ err err', c.store? { encoding := some e } = .error err ∧
      c'.store? { encoding := some e } = .error err' ∧
      err.mapHandles c.positionOf = err'.mapHandles c'.positionOf := by
  have hplain : ∀ c : Routine, c.store? { encoding := some e } = c.storeAs? e := by
    intro c
    show c.storeAs? e >>= (fun unit => .ok unit) = c.storeAs? e
    cases c.storeAs? e <;> rfl
  rw [hplain, hplain]
  exact mapError_eq_mapError_iff.1 (h.mapError_storeAs? hc hc' e)

/-- The loop of `countdown` in a pool of another order.  Out of use are a label, which the start of
    the loop took over from, and a jump that leads to that start. -/
def reordered : Routine :=
  { countdown with
    pool := Pool.afterCalls {} [
      .insertMany [(.nop, .none), (.returnValue, .none), (.loadConst, .const .none),
        (.loadFast, .localVar "n"), (.popJumpIfFalse, .jump 2), (.loadFast, .localVar "n"),
        (.loadConst, .const (.int 1)), (.binarySubtract, .none), (.storeFast, .localVar "n"),
        (.jumpAbsolute, .jump 0), (.jumpForward, .jump 3)],
      .steal 3 0]
    instrs := [3, 4, 5, 6, 7, 8, 9, 2, 1]
    lines := .ofList [(2, 4), (3, 2), (5, 3)] }

/-- The loop in another order is stored as the loop is. -/
theorem store_of_renumbered_reordered : Renumbered reordered countdown ∧
    ∃ unit, reordered.store? { encoding := some .legacy } = .ok unit ∧
      countdown.store? { encoding := some .legacy } = .ok unit := by
  have hsound : reordered.Sound := by decide +kernel
  have hsound' : countdown.Sound := by decide +kernel
  have hshape : reordered.shape = countdown.shape := by decide +kernel
  have hlines : reordered.code.map (fun entry => reordered.lines.get? entry.1) =
      countdown.code.map fun entry => countdown.lines.get? entry.1 := by decide +kernel
  have hrenumbered : Renumbered reordered countdown :=
    ⟨Body.forall₂_of_shape hsound hsound' hshape hlines, by decide, by decide, rfl, rfl, rfl, rfl,
      rfl, rfl, rfl⟩
  have hstore : (countdown.store? { encoding := some .legacy }).isOk = true := by decide +kernel
  rcases store_of_renumbered hsound hsound' hrenumbered .legacy with h | ⟨_, err, -, h, -⟩
  · exact ⟨hrenumbered, h⟩
  · rw [h] at hstore
    cases hstore

end Routine

end StackCode

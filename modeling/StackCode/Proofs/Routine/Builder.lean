import StackCode.Proofs.Pool.Steals
import StackCode.Routine.Builder

namespace StackCode

/-!
# Labels of a builder

A label is a placeholder that jumps may lead to.  It is free until it is placed, waits for the next
instruction then, and is stolen from by that instruction at last.

* `Pool.settle` — an operand whose target is the thief of a label.
* `Builder.Tidy` — a builder whose pool holds the labels given out and the instructions pushed, the
  latter with settled targets.
* `Builder.Stands` — a label stands before the instruction at a position.
* `Builder.Tidy.run_label`, `Builder.Tidy.place`, `Builder.Tidy.run_push` — what the calls of a
  builder make of it.
-/

/-! ### Runs -/

/-- A check succeeds with its result, and leaves the state alone. -/
theorem run_guarded_eq_ok {σ α : Type} {check : Except BuildError α} {s s' : σ} {a : α} :
    (guarded check).run s = .ok a s' ↔ check = .ok a ∧ s = s' := by
  cases check with
  | ok b =>
    rw [guarded, run_pure_eq_ok, Except.ok.injEq]
  | error e =>
    constructor
    · intro h
      cases h
    · rintro ⟨h, -⟩
      cases h

namespace Builder

variable {b b' : Builder} {labels : List Handle} {pushed : List (Opcode × Operand)}

/-- An action on the pool of a builder changes nothing but the pool. -/
theorem run_onPool_ok {α : Type} {act : PoolM α} {a : α} {q : Pool}
    (h : act.run b.draft.pool = .ok a q) :
    (onPool act).run b = .ok a { b with draft := { b.draft with pool := q } } := by
  show onPool act b = _
  rw [onPool, h]

/-- A traversal on the pool that succeeds changes nothing but the pool. -/
theorem run_forM_onPool_ok {act : Handle → PoolM Unit} {ids : List Handle} {q : Pool}
    (h : (ids.forM act).run b.draft.pool = .ok () q) :
    (ids.forM fun id => onPool (act id)).run b =
      .ok () { b with draft := { b.draft with pool := q } } := by
  induction ids generalizing b with
  | nil =>
    cases h
    rfl
  | cons id rest ih =>
    have hsplit : (do act id; rest.forM act : PoolM Unit).run b.draft.pool = .ok () q := h
    obtain ⟨_, p, hid, hrest⟩ := run_bind_eq_ok.1 hsplit
    show (do onPool (act id); rest.forM fun id => onPool (act id) : BuilderM Unit).run b = _
    refine run_bind_eq_ok.2 ⟨_, _, run_onPool_ok hid, ?_⟩
    exact ih (b := { b with draft := { b.draft with pool := p } }) hrest

end Builder

/-! ### Tidy builders -/

/-- The operand whose target is the instruction that stole from it, if there is one. -/
def Pool.settle (p : Pool) (o : Operand) : Operand :=
  o.mapTarget fun t => (p.stolenBy t).getD t

/-- Where an operand is settled depends on the steal links of the pool only. -/
theorem Pool.settle_congr {p q : Pool} {o : Operand} (h : ∀ a, q.stolenBy a = p.stolenBy a) :
    q.settle o = p.settle o := by
  simp only [settle, h]

namespace Builder

variable {b b' : Builder} {labels : List Handle} {pushed : List (Opcode × Operand)}

/-- The pool of the builder holds the placeholders `labels` and the instructions that were `pushed`,
    and labels are stolen from by instructions of the sequence only. -/
structure Tidy (b : Builder) (labels : List Handle) (pushed : List (Opcode × Operand)) : Prop where
  consistent : b.draft.pool.Consistent
  /-- The instructions have the operands they were pushed with, their targets settled. -/
  code : List.Forall₂ (fun id entry =>
    b.draft.pool.get? id = some ⟨entry.1, b.draft.pool.settle entry.2⟩) b.draft.instrs pushed
  distinct : b.draft.instrs.Nodup
  /-- Nobody steals from instructions of the sequence. -/
  live : ∀ id ∈ b.draft.instrs, id ∉ labels ∧ b.draft.pool.stolenBy id = none
  known : ∀ label ∈ labels, label < b.draft.pool.size
  /-- Labels that wait for the next instruction have not been stolen from. -/
  pending : ∀ label ∈ b.pendingLabels, label ∈ labels ∧ b.draft.pool.stolenBy label = none
  thieves : ∀ id thief, b.draft.pool.stolenBy id = some thief → thief ∈ b.draft.instrs

/-- The label stands before the instruction at position `k`: it waits for the next one, or that at
    the position stole from it. -/
def Stands (b : Builder) (label : Handle) (k : Nat) : Prop :=
  (k = b.draft.instrs.length ∧ label ∈ b.pendingLabels) ∨
    ∃ id, b.draft.instrs[k]? = some id ∧ b.draft.pool.stolenBy label = some id

/-- The label has not been placed. -/
def Unplaced (b : Builder) (label : Handle) : Prop :=
  label ∉ b.pendingLabels ∧ b.draft.pool.stolenBy label = none

/-- A new builder is tidy: it has given out no label and pushed nothing. -/
theorem tidy_empty : Tidy {} [] [] where
  consistent := Pool.consistent_empty
  code := .nil
  distinct := .nil
  live := nofun
  known := nofun
  pending := nofun
  thieves id thief h := by simp [Pool.stolenBy] at h

/-- The instructions of the sequence are in the pool. -/
theorem Tidy.lt_size (h : b.Tidy labels pushed) : ∀ id ∈ b.draft.instrs, id < b.draft.pool.size := by
  intro id hid
  obtain ⟨k, hk, rfl⟩ := List.getElem_of_mem hid
  exact Pool.lt_size_of_get? ((List.forall₂_iff_get.1 h.code).2 k hk (h.code.length_eq ▸ hk))

/-- Thieves are not stolen from, so that a label is resolved in one step. -/
theorem Tidy.resolve (h : b.Tidy labels pushed) (id : Handle) :
    b.draft.pool.resolve id = (b.draft.pool.stolenBy id).getD id :=
  Pool.resolve_eq fun t ht => (h.live t (h.thieves id t ht)).2

/-- What a builder says of its labels and instructions depends on the pool, the sequence and the
    labels that wait. -/
theorem Tidy.congr (h : b.Tidy labels pushed) (hpool : b'.draft.pool = b.draft.pool)
    (hinstrs : b'.draft.instrs = b.draft.instrs) (hpending : b'.pendingLabels = b.pendingLabels) :
    b'.Tidy labels pushed := by
  obtain ⟨consistent, code, distinct, live, known, pending, thieves⟩ := h
  rw [← hpool] at consistent code live known pending thieves
  rw [← hinstrs] at code distinct live thieves
  rw [← hpending] at pending
  exact ⟨consistent, code, distinct, live, known, pending, thieves⟩

/-- So does where a label stands, and whether it does. -/
theorem Stands.congr {label : Handle} {k : Nat} (h : b.Stands label k)
    (hinstrs : b'.draft.instrs = b.draft.instrs) (hpending : b'.pendingLabels = b.pendingLabels)
    (hstolenBy : ∀ id, b'.draft.pool.stolenBy id = b.draft.pool.stolenBy id) :
    b'.Stands label k := by
  show _ ∨ _
  rw [hinstrs, hpending, hstolenBy]
  exact h

/-- Nor does a label get placed while the links and the labels that wait stay as they are. -/
theorem Unplaced.congr {label : Handle} (h : b.Unplaced label)
    (hpending : b'.pendingLabels = b.pendingLabels)
    (hstolenBy : ∀ id, b'.draft.pool.stolenBy id = b.draft.pool.stolenBy id) :
    b'.Unplaced label := by
  show _ ∧ _
  rw [hpending, hstolenBy]
  exact h

/-! ### Labels -/

/-- An instruction that is stored and does not stand in the sequence leaves a builder tidy. -/
theorem Tidy.insert (h : b.Tidy labels pushed) {i : Instr}
    (hi : Pool.Admits b.draft.pool.size i) :
    Tidy { b with draft := { b.draft with
      pool := (b.draft.pool.push i).link b.draft.pool.size } } labels pushed where
  consistent := h.consistent.insert hi
  code := by
    refine List.forall₂_iff_get.2 ⟨h.code.length_eq, fun k hk hk' => ?_⟩
    -- Old handles keep their instructions, and a new one has no thief.
    have hget := (List.forall₂_iff_get.1 h.code).2 k hk hk'
    rw [Pool.get?_insert, if_neg (Nat.ne_of_lt (Pool.lt_size_of_get? hget)), hget,
      Pool.settle_congr fun a => Pool.stolenBy_insert i]
  distinct := h.distinct
  live id hid := by
    rw [Pool.stolenBy_insert]
    exact h.live id hid
  known label hlabel := by
    rw [Pool.size_link, Pool.size_push]
    exact Nat.lt_succ_of_lt (h.known label hlabel)
  pending label hlabel := by
    rw [Pool.stolenBy_insert]
    exact h.pending label hlabel
  thieves id thief hthief := by
    rw [Pool.stolenBy_insert] at hthief
    exact h.thieves id thief hthief

/-- The next handle of the pool is that of no label and of no instruction, and nobody stole from
    it. -/
theorem Tidy.fresh (h : b.Tidy labels pushed) : b.draft.pool.size ∉ labels ∧
    b.draft.pool.size ∉ b.draft.instrs ∧ b.Unplaced b.draft.pool.size := by
  have hlabel : b.draft.pool.size ∉ labels := fun hmem => Nat.lt_irrefl _ (h.known _ hmem)
  refine ⟨hlabel, fun hmem => Nat.lt_irrefl _ (h.lt_size _ hmem),
    fun hmem => hlabel (h.pending _ hmem).1, ?_⟩
  cases hstolen : b.draft.pool.stolenBy b.draft.pool.size with
  | none => rfl
  | some thief => exact absurd (Pool.lt_size_of_stolenBy hstolen) (Nat.lt_irrefl _)

/-- A label is an instruction of its own that leads nowhere. -/
theorem run_label_eq (b : Builder) : label.run b = .ok b.draft.pool.size
    { b with draft := { b.draft with
      pool := (b.draft.pool.push ⟨.nop, .none⟩).link b.draft.pool.size } } := by
  refine run_bind_eq_ok.2 ⟨⟨.nop, .none⟩, b, run_guarded_eq_ok.2 ⟨rfl, rfl⟩, ?_⟩
  exact run_onPool_ok (Pool.run_insert_ok nofun)

/-- **A new label.** It gets a handle of its own. -/
theorem Tidy.run_label (h : b.Tidy labels pushed) :
    ∃ q, label.run b = .ok b.draft.pool.size { b with draft := { b.draft with pool := q } } ∧
      Tidy { b with draft := { b.draft with pool := q } } (labels ++ [b.draft.pool.size]) pushed ∧
      ∀ id, q.stolenBy id = b.draft.pool.stolenBy id := by
  have hadmits : Pool.Admits b.draft.pool.size ⟨.nop, .none⟩ := ⟨rfl, nofun⟩
  have htidy := h.insert hadmits
  refine ⟨_, run_label_eq b, ⟨htidy.consistent, htidy.code, htidy.distinct, fun id hid => ?_,
    fun label hlabel => ?_, fun label hlabel => ?_, htidy.thieves⟩,
    fun id => Pool.stolenBy_insert _⟩
  · refine ⟨fun hmem => ?_, (htidy.live id hid).2⟩
    rcases List.mem_append.1 hmem with hmem | hmem
    · exact (h.live id hid).1 hmem
    · exact Nat.ne_of_lt (h.lt_size id hid) (List.mem_singleton.1 hmem)
  · rcases List.mem_append.1 hlabel with hlabel | hlabel
    · exact htidy.known label hlabel
    · rw [List.mem_singleton.1 hlabel, Pool.size_link, Pool.size_push]
      exact Nat.lt_succ_self _
  · obtain ⟨hmem, hfree⟩ := htidy.pending label hlabel
    exact ⟨List.mem_append_left _ hmem, hfree⟩

/-- **Placing a label.** It stands before the next instruction. -/
theorem Tidy.place (h : b.Tidy labels pushed) {label : Handle} (hlabel : label ∈ labels)
    (hfree : b.draft.pool.stolenBy label = none) :
    Tidy { b with pendingLabels := b.pendingLabels ++ [label] } labels pushed := by
  refine ⟨h.consistent, h.code, h.distinct, h.live, h.known, fun l hl => ?_, h.thieves⟩
  rcases List.mem_append.1 hl with hl | hl
  · exact h.pending l hl
  · rw [List.mem_singleton.1 hl]
    exact ⟨hlabel, hfree⟩

/-! ### Instructions -/

/-- What is left of a push when the target of the instruction is settled, in the state `b`. -/
def append (b : Builder) (i : Instr) : BuilderM Handle := do
  let id ← onPool (Pool.insert i)
  modify fun b => { b with pendingLabels := [] }
  b.pendingLabels.forM fun l => onPool (Pool.steal id l)
  modify fun b => { b with
    pendingLine := none
    draft := { b.draft with
      lines := match b.pendingLine with
        | some l => b.draft.lines.insert id l
        | none => b.draft.lines
      instrs := b.draft.instrs ++ [id] } }
  return id

/-- The builder after `append`, where the steals left the pool `q`. -/
def appended (b : Builder) (id : Handle) (q : Pool) : Builder :=
  { draft := { b.draft with
      pool := q
      lines := match b.pendingLine with
        | some l => b.draft.lines.insert id l
        | none => b.draft.lines
      instrs := b.draft.instrs ++ [id] } }

/-- Storing succeeds and the steals lead to `q`: then the line that waits is noted for the
    instruction, which closes the sequence. -/
theorem run_append_ok {i : Instr} {q : Pool} (hi : ∀ t, i.target? = some t → t < b.draft.pool.size)
    (hsteals : (b.pendingLabels.forM (Pool.steal b.draft.pool.size)).run
      ((b.draft.pool.push i).link b.draft.pool.size) = .ok () q) :
    (append b i).run b = .ok b.draft.pool.size (b.appended b.draft.pool.size q) := by
  refine run_bind_eq_ok.2 ⟨_, _, run_onPool_ok (Pool.run_insert_ok hi), ?_⟩
  refine run_bind_eq_ok.2 ⟨(), _, rfl, ?_⟩
  exact run_bind_eq_ok.2 ⟨(), _, run_forM_onPool_ok hsteals, rfl⟩

/-- When jumps to settled targets are handed over, they lead to where they would be settled now. -/
theorem mapTarget_settle {p q : Pool} {id : Handle} {waiting : List Handle} {o : Operand}
    (h : ∀ a, q.stolenBy a = if a ∈ waiting then some id else p.stolenBy a)
    (hwaiting : ∀ a ∈ waiting, p.stolenBy a = none)
    (hthieves : ∀ a thief, p.stolenBy a = some thief → thief ∉ waiting) :
    (p.settle o).mapTarget (fun t => if t ∈ waiting then id else t) = q.settle o := by
  rw [Pool.settle, Pool.settle, Operand.mapTarget_mapTarget]
  refine Operand.mapTarget_congr fun t _ => ?_
  rw [Function.comp_apply, h]
  by_cases ht : t ∈ waiting
  · simp [ht, hwaiting t ht]
  · cases hstolen : p.stolenBy t with
    | none => simp [ht]
    | some thief => simp [ht, hthieves t thief hstolen]

/-- The builder `b'` is `b` after `id` was pushed, which stole from the labels that waited. -/
structure Pushed (b : Builder) (id : Handle) (b' : Builder) : Prop where
  instrs : b'.draft.instrs = b.draft.instrs ++ [id]
  pendingLabels : b'.pendingLabels = []
  stolenBy : ∀ a, b'.draft.pool.stolenBy a =
    if a ∈ b.pendingLabels then some id else b.draft.pool.stolenBy a
  signature : b'.draft.signature = b.draft.signature
  flags : b'.draft.flags = b.draft.flags

/-- The instruction pushed stands behind the others, and the targets of all of them are settled. -/
theorem Tidy.appended (h : b.Tidy labels pushed) {opcode : Opcode} {operand : Operand} {q : Pool}
    (hadmits : Pool.Admits b.draft.pool.size ⟨opcode, b.draft.pool.settle operand⟩)
    (hq : Pool.HandedOver ((b.draft.pool.push ⟨opcode, b.draft.pool.settle operand⟩).link
      b.draft.pool.size) b.draft.pool.size b.pendingLabels q) :
    Pushed b b.draft.pool.size (b.appended b.draft.pool.size q) ∧
      (b.appended b.draft.pool.size q).Tidy labels (pushed ++ [(opcode, operand)]) := by
  obtain ⟨hlabel, hinstr, hwaits, hstolen⟩ := h.fresh
  have htidy := h.insert hadmits
  have hstolenBy : ∀ a, q.stolenBy a =
      if a ∈ b.pendingLabels then some b.draft.pool.size else b.draft.pool.stolenBy a := by
    intro a
    rw [hq.stolenBy, Pool.stolenBy_insert]
  -- Thieves stand in the sequence, so that no label that waits is one.
  have hsettle : ∀ o, (b.draft.pool.settle o).mapTarget (fun t =>
      if t ∈ b.pendingLabels then b.draft.pool.size else t) = q.settle o := fun o =>
    mapTarget_settle hstolenBy (fun a ha => (h.pending a ha).2) fun a thief hthief hwait =>
      (h.live thief (h.thieves a thief hthief)).1 (h.pending thief hwait).1
  -- What was settled before the steals is settled after them, for old instructions and the new one.
  have hget : ∀ id (entry : Opcode × Operand),
      ((b.draft.pool.push ⟨opcode, b.draft.pool.settle operand⟩).link b.draft.pool.size).get? id =
        some ⟨entry.1, b.draft.pool.settle entry.2⟩ →
      q.get? id = some ⟨entry.1, q.settle entry.2⟩ := by
    intro id entry hid
    rw [hq.get?, hid, Option.map_some, Instr.mapTarget, hsettle]
  refine ⟨⟨rfl, rfl, hstolenBy, rfl, rfl⟩, hq.consistent, ?_, ?_, ?_, ?_, ?_, ?_⟩
  · refine List.rel_append (h.code.imp fun id entry hid => hget id entry ?_) (.cons ?_ .nil)
    · rw [Pool.get?_insert, if_neg (Nat.ne_of_lt (Pool.lt_size_of_get? hid)), hid]
    · exact hget _ (opcode, operand) (by rw [Pool.get?_insert, if_pos rfl])
  · exact List.nodup_append.2 ⟨h.distinct, List.nodup_singleton _, fun x hx y hy => by
      rw [List.mem_singleton.1 hy]
      rintro rfl
      exact hinstr hx⟩
  · intro id hid
    show id ∉ labels ∧ q.stolenBy id = none
    rw [hstolenBy]
    rcases List.mem_append.1 hid with hid | hid
    · obtain ⟨hnot, hfree⟩ := h.live id hid
      rw [if_neg fun hwait => hnot (h.pending id hwait).1]
      exact ⟨hnot, hfree⟩
    · rw [List.mem_singleton.1 hid, if_neg hwaits]
      exact ⟨hlabel, hstolen⟩
  · intro label hlabel
    show label < q.size
    rw [hq.size]
    exact htidy.known label hlabel
  · intro label hlabel
    cases hlabel
  · intro id thief hthief
    show thief ∈ b.draft.instrs ++ [b.draft.pool.size]
    rw [show (b.appended b.draft.pool.size q).draft.pool = q from rfl, hstolenBy] at hthief
    split at hthief
    · cases hthief
      exact List.mem_append_right _ (List.mem_singleton_self _)
    · exact List.mem_append_left _ (h.thieves id thief hthief)

/-- A push that fits and whose jump leads into the pool appends its instruction, the target settled,
    and lets it steal from the labels that waited. -/
theorem Tidy.run_push_appended (h : b.Tidy labels pushed) {opcode : Opcode} {operand : Operand}
    (hfits : operand.fits opcode.operandClass = true)
    (htarget : ∀ t, operand.target? = some t → t < b.draft.pool.size) :
    ∃ q, (push opcode operand).run b =
        .ok b.draft.pool.size (b.appended b.draft.pool.size q) ∧
      q.size = b.draft.pool.size + 1 ∧
      Pushed b b.draft.pool.size (b.appended b.draft.pool.size q) ∧
      (b.appended b.draft.pool.size q).Tidy labels (pushed ++ [(opcode, operand)]) := by
  -- The jump goes to the thief of its target, and so into the pool.
  have hadmits : Pool.Admits b.draft.pool.size ⟨opcode, b.draft.pool.settle operand⟩ := by
    refine ⟨(Operand.fits_mapTarget _ _).trans hfits, fun t ht => ?_⟩
    rw [Instr.target?, Pool.settle, Operand.target?_mapTarget] at ht
    obtain ⟨t', ht', rfl⟩ := Option.map_eq_some_iff.1 ht
    cases hthief : b.draft.pool.stolenBy t' with
    | none => exact htarget t' ht'
    | some thief => exact h.lt_size thief (h.thieves t' thief hthief)
  have htidy := h.insert hadmits
  have hgrown : ((b.draft.pool.push ⟨opcode, b.draft.pool.settle operand⟩).link
      b.draft.pool.size).size = b.draft.pool.size + 1 := by
    rw [Pool.size_link, Pool.size_push]
  obtain ⟨q, hsteals, hq⟩ := Pool.exists_steals htidy.consistent (hgrown ▸ Nat.lt_succ_self _)
    (fun label hwait => htidy.known label (htidy.pending label hwait).1) h.fresh.2.2.1
  have happend := run_append_ok hadmits.2 hsteals
  refine ⟨q, ?_, hq.size.trans hgrown, h.appended hadmits hq⟩
  -- Only jumps are settled, and only they are made anew.
  refine run_bind_eq_ok.2 ⟨⟨opcode, operand⟩, b,
    run_guarded_eq_ok.2 ⟨Pool.new?_eq_ok.2 ⟨hfits, rfl⟩, rfl⟩, run_bind_eq_ok.2 ⟨b, b, rfl, ?_⟩⟩
  cases operand with
  | jump t =>
    refine run_bind_eq_ok.2 ⟨_, b, run_guarded_eq_ok.2 ⟨Pool.new?_eq_ok.2 ⟨?_, rfl⟩, rfl⟩, ?_⟩
    · exact (Operand.fits_mapTarget (f := fun t => b.draft.pool.resolve t) (.jump t) _).trans hfits
    · rw [h.resolve]
      exact happend
  | _ => exact happend

/-- **Pushing an instruction.** It gets the next handle and stands behind the others; the labels
    that waited belong to it. -/
theorem Tidy.run_push (h : b.Tidy labels pushed) {opcode : Opcode} {operand : Operand}
    (hfits : operand.fits opcode.operandClass = true)
    (htarget : ∀ t, operand.target? = some t → t < b.draft.pool.size) :
    ∃ b', (push opcode operand).run b = .ok b.draft.pool.size b' ∧
      Pushed b b.draft.pool.size b' ∧ b'.Tidy labels (pushed ++ [(opcode, operand)]) := by
  obtain ⟨q, hrun, -, hpushed, htidy⟩ := h.run_push_appended hfits htarget
  exact ⟨_, hrun, hpushed, htidy⟩

/-! ### Places of labels -/

/-- A push moves no label that stands already: one that waited stands before the new instruction,
    and one stolen from before keeps its thief. -/
theorem Pushed.stands {id label : Handle} {k : Nat} (hpushed : Pushed b id b')
    (hb : b.Tidy labels pushed) (h : b.Stands label k) : b'.Stands label k := by
  right
  rw [hpushed.instrs, hpushed.stolenBy]
  rcases h with ⟨rfl, hwait⟩ | ⟨thief, hget, hstolen⟩
  · exact ⟨id, List.getElem?_concat_length .., if_pos hwait⟩
  · have hwait : label ∉ b.pendingLabels := by
      intro hmem
      rw [(hb.pending label hmem).2] at hstolen
      cases hstolen
    exact ⟨thief, List.getElem?_append_left (List.getElem?_eq_some_iff.1 hget).1 ▸ hget,
      if_neg hwait ▸ hstolen⟩

/-- A push places no label. -/
theorem Pushed.unplaced {id label : Handle} (hpushed : Pushed b id b') (h : b.Unplaced label) :
    b'.Unplaced label := by
  refine ⟨?_, ?_⟩
  · rw [hpushed.pendingLabels]
    exact List.not_mem_nil
  · rw [hpushed.stolenBy, if_neg h.1]
    exact h.2

end Builder

end StackCode

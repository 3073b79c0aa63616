import StackCode.Proofs.LineTable.Reading
import StackCode.Proofs.Routine.Storing

namespace StackCode

/-!
# Round trips

* `Routine.load_store` — what was stored is loaded as the same routine, and stored as the same unit
  again.
* `StoredUnit.Addressable` — units whose offsets and line addresses are 32-bit numbers.
* `Routine.store_load` — what was loaded from such a unit can be stored, with the same opcodes,
  jumps and lines.
* `Routine.loaded_not_stored` — what was loaded from other units cannot always be stored.

Both meet in `Represents`: a stored unit represents the shape of its routine, and loading finds the
shape that a unit represents.
-/

/-- The offsets of the code, its end included, and the addresses of the line table are 32-bit
    numbers.  A longer code is not stored at all, and the starts of a table that outreaches its
    address may come out of order. -/
structure StoredUnit.Addressable (unit : StoredUnit) : Prop where
  size : unit.code.length < UInt32.size
  reach : LineTable.reach unit.lineTable < UInt32.size

namespace Routine

variable {c : Routine} {raw unit : StoredUnit} {e : Encoding} {walked : List Located}

/-! ### Loading what was stored -/

/-- The normal form of stored lines starts at the offsets of positions. -/
theorem offset_of_mem_normal {first : UInt32} (hc : c.Sound)
    (hsize : c.codeSize e < UInt32.size) (h : Represents unit e walked c.shape)
    (hne : walked ≠ []) :
    ∀ s ∈ LineTable.normal first (c.storedLines (c.layout e)),
      ∃ k < walked.length, e.offsetAt (opcodesOf walked) k = s.offset.toNat := by
  have hstored : ∀ s ∈ c.storedLines (c.layout e),
      ∃ k < walked.length, e.offsetAt (opcodesOf walked) k = s.offset.toNat := by
    rw [h.opcodesOf_eq, Body.opcodes_shape, ← h.length_eq, Body.length_shape hc]
    exact Body.offset_of_mem_storedLines hc hsize
  have hzero : ∃ k < walked.length, e.offsetAt (opcodesOf walked) k = 0 :=
    ⟨0, List.length_pos_iff.2 hne, e.offsetAt_zero _⟩
  intro s hs
  -- A start of the normal form is a stored one, or the one that was put at offset `0`.
  replace hs := (LineTable.dropRepeats_sublist _).subset hs
  unfold LineTable.fromZero at hs
  split at hs
  · rw [List.mem_singleton.1 hs]
    exact hzero
  · rename_i start rest heq
    rw [heq] at hstored
    split at hs
    · exact hstored s hs
    · rcases List.mem_cons.1 hs with rfl | hs
      · exact hzero
      · exact hstored s hs

/-- The line table of a stored unit is read, and what was read is written as the same table. -/
theorem readLines_of_store (hc : c.Sound) (h : c.store? { encoding := some e } = .ok raw)
    (hrep : Represents raw e walked c.shape) (signature : Signature) :
    ∃ lines, readLines raw e walked = .ok lines ∧
      LineTable.encode ((loaded raw e c.shape lines signature).storedLines
        ((loaded raw e c.shape lines signature).layout e)) raw.firstlineno e.lineFormat =
          .ok raw.lineTable := by
  obtain ⟨code, lineTable, hsize, -, hlines, hraw⟩ := store?_eq_ok.1 h
  have htable : raw.lineTable = lineTable := by rw [← hraw]; rfl
  have hfirst : raw.firstlineno = c.firstlineno := by rw [← hraw]; rfl
  rw [htable, hfirst]
  by_cases hne : walked = []
  · -- Without instructions there are no lines on either side.
    have hnone : c.storedLines (c.layout e) = [] := by
      refine List.eq_nil_iff_forall_not_mem.2 fun s hs => ?_
      obtain ⟨k, hk, -⟩ := Body.offset_of_mem_storedLines hc hsize s hs
      rw [← Body.length_shape hc, hrep.length_eq, hne] at hk
      cases hk
    refine ⟨.empty, by rw [hne]; rfl, ?_⟩
    rw [storedLines_loaded hrep (lineMap_nil walked) .nil]
    rwa [hnone] at hlines
  · -- The table is read as the normal form of the stored lines, and that is written as the same
    -- table.
    have hdecode := LineTable.decode_encode (LineTable.usable_lineFormat e) hlines
    obtain ⟨lines, hmap⟩ := exists_lineMap hrep.walks (offset_of_mem_normal hc hsize hrep hne)
    refine ⟨lines, (readLines_eq_ok hne).2 ⟨_, by rw [htable, hfirst]; exact hdecode, hmap⟩, ?_⟩
    have hnormal := LineTable.encode_normal hlines
    rw [storedLines_loaded hrep hmap (LineTable.encodeFrom_eq_ok.1 hnormal).1.ordered]
    exact hnormal

/-- **Loading undoes storing.** A sound routine with distinct parameters, whose flags tell whether
    it takes surplus arguments, is loaded from its stored unit with the same instructions,
    parameters and description, and is stored as the same unit again.  The counts of parameters
    have to fit the 32-bit fields of the unit. -/
theorem load_store (hc : c.Sound) (hnames : c.signature.varnames.Nodup)
    (hflags : c.flags.has .varargs = c.signature.varargs.isSome ∧
      c.flags.has .varKeywords = c.signature.varkw.isSome)
    (hcounts : c.signature.positional.length < UInt32.size ∧
      c.signature.kwonly.length < UInt32.size)
    (h : c.store? { encoding := some e } = .ok raw) :
    ∃ c', load? raw e = .ok c' ∧ c.instrs.length = c'.instrs.length ∧
      List.Forall₂ (fun entry entry' => entry.2.opcode = entry'.2.opcode ∧
        Body.SameOperand c.toBody c'.toBody entry.2.operand entry'.2.operand) c.code c'.code ∧
      Alike c c' ∧ c'.store? { encoding := some e } = .ok raw := by
  obtain ⟨walked, hrep⟩ := represents_of_store hc h
  obtain ⟨lines, hread, hencode⟩ := readLines_of_store hc h hrep c.signature
  obtain ⟨code, lineTable, hsize, hcode, -, rfl⟩ := store?_eq_ok.1 h
  -- The names of the unit start with the parameters, which the counts and flags tell apart.
  have hsignature : Signature.ofLayout? (UInt32.ofNat c.signature.positional.length).toNat
      (UInt32.ofNat c.signature.kwonly.length).toNat c.flags c.varnames = .ok c.signature := by
    obtain ⟨others, hvarnames⟩ := Body.varnames_eq hnames
    rw [UInt32.toNat_ofNat_of_lt' hcounts.1, UInt32.toNat_ofNat_of_lt' hcounts.2]
    exact Signature.ofLayout?_eq_ok.2 ⟨⟨rfl, rfl⟩, hflags, others, hvarnames.symm⟩
  have hload := load?_eq_ok.2 ⟨walked, c.shape, lines, c.signature, hrep, hread, hsignature, rfl⟩
  have halike : Alike c (loaded (c.stored code lineTable) e c.shape lines c.signature) :=
    ⟨(shape_loaded hrep lines _).symm, rfl, rfl, rfl, rfl, rfl, rfl, rfl⟩
  have hsound := sound_loaded hrep lines c.signature
  refine ⟨_, hload, ?_, Body.forall₂_code_of_shape hc hsound halike.shape (target_lt hrep), halike,
    store?_eq_ok.2 ⟨code, lineTable, halike.codeSize e ▸ hsize, ?_, hencode, ?_⟩⟩
  -- The loaded routine has the shape of the stored one, which is all that storing depends on.
  · show c.instrs.length = (List.range' 0 c.shape.length).length
    rw [List.length_range', Body.length_shape hc]
  · exact (halike.codeBytes hc hsound).1 hcode
  · exact (halike.stored code lineTable).symm

/-- A loop that counts its parameter down to zero. -/
def countdown : Routine where
  pool := .ofInstrs [⟨.loadFast, .localVar "n"⟩, ⟨.popJumpIfFalse, .jump 7⟩,
    ⟨.loadFast, .localVar "n"⟩, ⟨.loadConst, .const (.int 1)⟩, ⟨.binarySubtract, .none⟩,
    ⟨.storeFast, .localVar "n"⟩, ⟨.jumpAbsolute, .jump 0⟩, ⟨.loadConst, .const .none⟩,
    ⟨.returnValue, .none⟩]
  instrs := List.range 9
  signature := { positional := ["n"] }
  name := "countdown"
  firstlineno := 1
  lines := .ofList [(0, 2), (2, 3), (7, 4)]
  flags := .ofList [.optimized, .newLocals, .noFree]

/-- The loop under wordcode, loaded back from what was stored. -/
theorem load_store_countdown :
    ∃ raw c', countdown.store? { encoding := some .wordcode } = .ok raw ∧
      load? raw .wordcode = .ok c' ∧ Alike countdown c' ∧
      c'.store? { encoding := some .wordcode } = .ok raw := by
  have hstore : (countdown.store? { encoding := some .wordcode }).isOk = true := by decide +kernel
  obtain ⟨raw, hstore⟩ := exists_of_isOk hstore
  obtain ⟨c', hload, -, -, halike, hagain⟩ := load_store (c := countdown) (e := .wordcode)
    (by decide +kernel) (by decide) (by decide) (by decide) hstore
  exact ⟨raw, c', hstore, hload, halike, hagain⟩

/-- Loaded routines are sound, and their counts of parameters fit their fields. -/
theorem sound_of_load (h : load? raw e = .ok c) :
    c.Sound ∧ c.signature.positional.length < UInt32.size ∧
      c.signature.kwonly.length < UInt32.size := by
  obtain ⟨walked, shape, lines, signature, hrep, -, hsignature, rfl⟩ := load?_eq_ok.1 h
  obtain ⟨⟨hargcount, hkwonly⟩, -, -⟩ := Signature.ofLayout?_eq_ok.1 hsignature
  refine ⟨sound_loaded hrep lines signature, ?_, ?_⟩
  · show signature.positional.length < UInt32.size
    rw [hargcount]
    exact raw.argcount.toNat_lt
  · show signature.kwonly.length < UInt32.size
    rw [hkwonly]
    exact raw.kwonlyargcount.toNat_lt

/-! ### Storing what was loaded -/

/-- The line starts of a loaded routine are written, and read as they were before. -/
theorem encode_loaded {shape : List Instr} {lines : LineMap}
    (h : Represents unit e walked shape) (signature : Signature)
    (hreach : LineTable.reach unit.lineTable < UInt32.size)
    (hread : readLines unit e walked = .ok lines) :
    ∃ table, LineTable.encode ((loaded unit e shape lines signature).storedLines
        ((loaded unit e shape lines signature).layout e)) unit.firstlineno e.lineFormat =
          .ok table ∧
      (walked ≠ [] → ∃ starts,
        LineTable.decode unit.lineTable unit.firstlineno e.lineFormat = .ok starts ∧
          LineTable.decode table unit.firstlineno e.lineFormat = .ok starts) := by
  by_cases hne : walked = []
  · subst hne
    cases hread
    rw [storedLines_loaded h (lineMap_nil []) .nil]
    exact ⟨[], rfl, fun hne => absurd rfl hne⟩
  · obtain ⟨starts, hdecode, hmap⟩ := (readLines_eq_ok hne).1 hread
    -- The table read does not outreach its addresses, so what was read from it is in normal form.
    obtain ⟨table, hencode, hagain⟩ :=
      LineTable.decode_encode_decode (LineTable.usable_lineFormat e) hreach hdecode
    rw [storedLines_loaded h hmap (LineTable.encodable_of_decode hreach hdecode).1.ordered]
    exact ⟨table, hencode, fun _ => ⟨starts, hdecode, hagain⟩⟩

/-- Units of one shape have the same instructions at the same offsets, but for the operand fields
    that differ. -/
theorem code_of_represents {r : StoredUnit} {walked' : List Located} {shape : List Instr}
    (h : Represents raw e walked shape) (h' : Represents r e walked' shape) {k : Nat}
    (hk : k < walked.length) (hk' : k < walked'.length) :
    r.code[walked[k].offset]? = raw.code[walked[k].offset]? ∧
      (walked[k].opcode.hasArg = true → walked'[k].arg = walked[k].arg →
        (r.code.drop walked[k].offset).take (walked[k].next - walked[k].offset) =
          (raw.code.drop walked[k].offset).take (walked[k].next - walked[k].offset)) := by
  have hop : walked'[k].opcode = walked[k].opcode := by
    rw [(h.stands hk (h.length_eq ▸ hk)).1, (h'.stands hk' (h.length_eq ▸ hk)).1]
  have hoffset : walked'[k].offset = walked[k].offset := by rw [h.offset_eq hk, h'.offset_eq hk']
  have hnext : walked'[k].next = walked[k].next := by rw [h.next_eq hk, h'.next_eq hk']
  constructor
  · rw [h.walks.getElem?_offset k hk, ← hoffset, h'.walks.getElem?_offset k hk', hop]
  · intro harg hsame
    rw [h.walks.take_drop_offset k hk harg, ← hoffset, ← hnext,
      h'.walks.take_drop_offset k hk' (hop ▸ harg), hop, hsame]

/-- A loaded routine is stored as a unit of the same shape, with the same fields of jumps and
    numbers and with the same line starts. -/
theorem exists_store_loaded {shape : List Instr} {lines : LineMap} {signature : Signature}
    (h : Represents raw e walked shape) (hread : readLines raw e walked = .ok lines)
    (hparams : signature.varnames <+: raw.varnames) (hunit : raw.Addressable) :
    ∃ r walked', (loaded raw e shape lines signature).store? { encoding := some e } = .ok r ∧
      Represents r e walked' shape ∧
      (∀ k (hk : k < walked.length) (hk' : k < walked'.length),
        walked[k].opcode.isJump = true ∨ walked[k].opcode.operandClass = .int →
          walked'[k].arg = walked[k].arg) ∧
      (walked ≠ [] → ∃ starts,
        LineTable.decode raw.lineTable raw.firstlineno e.lineFormat = .ok starts ∧
          LineTable.decode r.lineTable r.firstlineno e.lineFormat = .ok starts) := by
  have hsound := sound_loaded h lines signature
  have hshape := shape_loaded h lines signature
  obtain ⟨args, hfields, hkeep⟩ := fields_loaded h lines hparams
  obtain ⟨table, hencode, hlines⟩ := encode_loaded h signature hunit.reach hread
  have hcode := (Body.codeBytes_eq_ok (e := e) hsound).2 ⟨args, by rw [hshape]; exact hfields, rfl⟩
  have hsize' := (codeSize_loaded h lines signature).trans_lt hunit.size
  have hstore := store?_eq_ok.2 ⟨_, table, hsize', hcode, hencode, rfl⟩
  have hhold := Body.tables_hold (b := (loaded raw e shape lines signature).toBody)
  -- What is emitted follows from the shape, and represents it again.
  rw [← Body.opcodes_shape, hshape] at hstore
  rw [hshape] at hhold
  obtain ⟨walked', hrep', hargs⟩ := hfields.represents
    ((loaded raw e shape lines signature).stored
      (Body.emitAll e (shape.map (·.opcode)) args) table) (fits_of_represents h) hhold rfl
  have hlen : args.length = walked'.length := by rw [← hargs, List.length_map]
  refine ⟨_, walked', hstore, hrep', fun k hk hk' hclass => ?_, hlines⟩
  rw [← hkeep k hk (by omega) hclass, List.getElem_of_eq hargs.symm, List.getElem_map]

/-- Jumps and instructions with a number have an operand field. -/
theorem hasArg_of_isJump_or_int {op : Opcode} (h : op.isJump = true ∨ op.operandClass = .int) :
    op.hasArg = true := by
  rw [Opcode.hasArg_iff]
  intro hnone
  rcases h with hjump | hint
  · rw [Opcode.isJump, hnone] at hjump
    cases hjump
  · rw [hnone] at hint
    cases hint

/-- **What is loaded can be stored**, when its offsets and the addresses of its line table are
    32-bit numbers.  The new unit has a code of the same length, with the same opcodes at the
    offsets of the instructions and the same bytes for jumps and numbers.  It has the same header,
    and its line table gives every instruction the same line. -/
theorem store_load (h : load? raw e = .ok c) (hunit : raw.Addressable) :
    ∃ r walked, c.store? { encoding := some e } = .ok r ∧ walk e 0 raw.code = .ok walked ∧
      r.code.length = raw.code.length ∧
      (∀ here ∈ walked, r.code[here.offset]? = raw.code[here.offset]? ∧
        (here.opcode.isJump = true ∨ here.opcode.operandClass = .int →
          (r.code.drop here.offset).take (here.next - here.offset) =
            (raw.code.drop here.offset).take (here.next - here.offset))) ∧
      SameHeader r raw ∧
      (raw.code ≠ [] → ∃ starts starts',
        LineTable.decode raw.lineTable raw.firstlineno e.lineFormat = .ok starts ∧
        LineTable.decode r.lineTable r.firstlineno e.lineFormat = .ok starts' ∧
        ∀ here ∈ walked,
          LineTable.lineAt starts' here.offset = LineTable.lineAt starts here.offset) := by
  obtain ⟨walked, shape, lines, signature, hrep, hread, hsignature, rfl⟩ := load?_eq_ok.1 h
  obtain ⟨-, -, hparams⟩ := Signature.ofLayout?_eq_ok.1 hsignature
  obtain ⟨r, walked', hstore, hrep', hkeep, hlines⟩ :=
    exists_store_loaded hrep hread hparams hunit
  have hlen : walked'.length = walked.length := by rw [← hrep.length_eq, ← hrep'.length_eq]
  refine ⟨r, walked, hstore, walk_eq_ok.2 hrep.walks, ?_, fun here hhere => ?_,
    sameHeader_of_store h hstore, fun hne => ?_⟩
  · rw [hrep.walks.length_eq, hrep'.walks.length_eq, hrep.opcodesOf_eq, hrep'.opcodesOf_eq, hlen]
  · obtain ⟨k, hk, rfl⟩ := List.getElem_of_mem hhere
    have hk' : k < walked'.length := by rw [hlen]; exact hk
    obtain ⟨hbyte, hbytes⟩ := code_of_represents hrep hrep' hk hk'
    exact ⟨hbyte, fun hclass => hbytes (hasArg_of_isJump_or_int hclass) (hkeep k hk hk' hclass)⟩
  · have hwalked : walked ≠ [] := by
      rintro rfl
      exact hne (List.length_eq_zero_iff.1 hrep.walks.length_eq)
    -- Both tables have the same starts, so that the lines in effect agree everywhere.
    obtain ⟨starts, hdecode, hagain⟩ := hlines hwalked
    exact ⟨starts, starts, hdecode, hagain, fun _ _ => rfl⟩

/-- The same loop, stored with more constants and locals than it uses. -/
def countdownUnit : StoredUnit where
  argcount := 1
  flags := 67
  code := [124, 0, 114, 14, 124, 0, 100, 2, 24, 0, 125, 0, 113, 0, 100, 0, 83, 0]
  consts := [.none, .bool true, .int 1, .int 1]
  varnames := ["n", "unused"]
  name := "countdown"
  firstlineno := 1
  lineTable := [0, 1, 4, 1, 10, 1]

/-- The unit of the loop is loaded as the loop, and the loop is stored in as many bytes. -/
theorem store_load_countdown :
    load? countdownUnit .wordcode = .ok countdown ∧ countdownUnit.Addressable ∧
      ∃ r, countdown.store? { encoding := some .wordcode } = .ok r ∧
        r.code.length = countdownUnit.code.length ∧ SameHeader r countdownUnit := by
  have hload : load? countdownUnit .wordcode = .ok countdown := by decide +kernel
  have hunit : countdownUnit.Addressable := ⟨by decide, by decide⟩
  obtain ⟨r, walked, hstore, -, hlength, -, hheader, -⟩ := store_load hload hunit
  exact ⟨hload, hunit, r, hstore, hlength, hheader⟩

/-! ### Units that are loaded and not stored -/

/-- What is loaded from a code whose size is no 32-bit number is not stored. -/
theorem store?_of_load_of_size_le (h : load? raw e = .ok c)
    (hsize : UInt32.size ≤ raw.code.length) :
    ∃ size, UInt32.size ≤ size ∧ c.store? { encoding := some e } = .error (.tooLarge size) := by
  obtain ⟨walked, shape, lines, signature, hrep, -, -, rfl⟩ := load?_eq_ok.1 h
  exact store?_of_size_le (hsize.trans_eq (codeSize_loaded hrep lines signature).symm)

/-- A unit of `n` instructions that do nothing. -/
def idle (n : Nat) : StoredUnit where
  code := List.replicate n 9

/-- An idle unit is as long as it has instructions. -/
theorem length_idle (n : Nat) : (idle n).code.length = n := List.length_replicate

/-- Its bytes represent instructions without operands. -/
theorem represents_idle (n : Nat) :
    ∃ walked, Represents (idle n) .legacy walked (List.replicate n ⟨.nop, .none⟩) := by
  have hbytes : List.replicate n (9 : UInt8) =
      Body.emitAll .legacy ((List.replicate n (⟨.nop, .none⟩ : Instr)).map (·.opcode))
        (List.replicate n 0) := by
    have hbyte : emit .legacy .nop 0 = [9] := by decide
    rw [Body.emitAll, List.map_replicate, List.zip_replicate', List.flatMap_replicate, hbyte,
      List.flatten_replicate_singleton]
  have hfields : Body.Fields (Body.unitTables (idle n)) .legacy
      (List.replicate n ⟨.nop, .none⟩) (List.replicate n 0) := by
    refine ⟨by simp, fun k hk hk' => ?_, fun arg harg => ?_⟩
    · simp only [List.getElem_replicate]
      rfl
    · rw [List.eq_of_mem_replicate harg]
      exact Nat.zero_le _
  obtain ⟨walked, hrep, -⟩ := hfields.represents (idle n)
    (fun i hi => by rw [List.eq_of_mem_replicate hi]; rfl)
    (fun i hi => by rw [List.eq_of_mem_replicate hi]; trivial) hbytes
  exact ⟨walked, hrep⟩

/-- It is loaded, with the line of its first instruction and without parameters. -/
theorem exists_load_idle {n : Nat} (hn : 0 < n) :
    ∃ c, load? (idle n) .legacy = .ok c ∧ c.signature = {} := by
  obtain ⟨walked, hrep⟩ := represents_idle n
  have hlen : 0 < walked.length := by rwa [← hrep.length_eq, List.length_replicate]
  obtain ⟨lines, hlines⟩ : ∃ lines, lineMap walked [⟨0, 0⟩] = .ok lines := by
    refine exists_lineMap hrep.walks fun s hs => ⟨0, hlen, ?_⟩
    rw [List.mem_singleton.1 hs]
    exact Encoding.legacy.offsetAt_zero _
  have hread : readLines (idle n) .legacy walked = .ok lines :=
    (readLines_eq_ok (List.ne_nil_of_length_pos hlen)).2 ⟨[⟨0, 0⟩], rfl, hlines⟩
  have hsignature : Signature.ofLayout? 0 0 ⟨0⟩ [] = .ok {} := by decide
  exact ⟨_, load?_eq_ok.2 ⟨walked, _, lines, {}, hrep, hread, hsignature, rfl⟩, rfl⟩

/-- Eight instructions that do nothing, with a line table that makes a detour. -/
def detouring (n : Nat) : StoredUnit where
  code := List.replicate 8 9
  firstlineno := 1
  lineTable := LineTable.detour n

/-- What is loaded when the address comes back to offset `4`: line `3` starts before line `2`. -/
def crossed : Routine where
  pool := .ofInstrs (List.replicate 8 ⟨.nop, .none⟩)
  instrs := List.range' 0 8
  firstlineno := 1
  lines := .ofList [(0, 1), (4, 3), (6, 2)]
  encoding := .legacy
  flags := ⟨0⟩

/-- Every pair is decoded: the detour brings the addresses back to the start of the code. -/
theorem load?_detouring : load? (detouring 16843007) .legacy = .ok crossed := by
  -- The sum of the address bytes is `2 ^ 32 + 4`.  The table itself is never written out.
  have hdecode : LineTable.decode (detouring 16843007).lineTable (detouring 16843007).firstlineno
      Encoding.legacy.lineFormat = .ok [⟨0, 1⟩, ⟨6, 2⟩, ⟨4, 3⟩] :=
    LineTable.decode_detour _
  unfold load?
  rw [hdecode]
  decide +kernel

/-- The loaded lines are out of order once they go by offset, and unsigned deltas do not allow for
    that. -/
theorem store?_crossed : crossed.store? { encoding := some .legacy } =
    .error (.lineTable (.backwardsLine 6 2 3)) := by
  decide +kernel

/-- **Beyond the bounds.** What is loaded is not always stored: here the address of the line table
    wraps around, so that lines go backwards, or else the code is a byte too long. -/
theorem loaded_not_stored :
    (load? (detouring 16843007) .legacy = .ok crossed ∧
      crossed.store? { encoding := some .legacy } = .error (.lineTable (.backwardsLine 6 2 3))) ∧
    ∃ c size, load? (idle UInt32.size) .legacy = .ok c ∧
      c.store? { encoding := some .legacy } = .error (.tooLarge size) := by
  obtain ⟨c, hload, -⟩ := exists_load_idle (n := UInt32.size) (by decide)
  obtain ⟨size, -, hstore⟩ := store?_of_load_of_size_le hload (length_idle _).ge
  exact ⟨⟨load?_detouring, store?_crossed⟩, c, size, hload, hstore⟩

end Routine

end StackCode

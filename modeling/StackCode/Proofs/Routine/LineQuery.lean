import Mathlib.Data.List.Induction
import StackCode.Proofs.Pool.Steals
import StackCode.Proofs.Routine.Ownership
import StackCode.Proofs.Routine.RoundTrip

namespace StackCode

/-!
# Line queries

The query `Body.lineOf` looks at the entries of live instructions, while the stored lines also take
in those that live instructions inherit.

* `lineBehind` — the line in effect behind some instructions, from the lines that they start.
* `Body.lineOf_eq` — the query, in these terms.
* `Body.lineAt_storedLines` — the stored lines, in these terms.
* `Routine.lineOf_of_load` — what the query says of a routine and of what is loaded from its stored
  unit; they agree where the line in effect is not an inherited one.
-/

/-! ### Lines behind instructions -/

/-- The line in effect behind the instructions `ids`, which start in line `line`: that of the last
    of them that starts one. -/
def lineBehind (owned : Handle → Option UInt32) (line : UInt32) (ids : List Handle) : UInt32 :=
  (ids.filterMap owned).getLast?.getD line

section

variable {owned owned' : Handle → Option UInt32} {line : UInt32} {id : Handle} {ids : List Handle}

/-- Without instructions the starting line stays in effect. -/
@[simp] theorem lineBehind_nil : lineBehind owned line [] = line := rfl

/-- The first instruction passes on the line that it starts, or else the line before it. -/
theorem lineBehind_cons :
    lineBehind owned line (id :: ids) = lineBehind owned ((owned id).getD line) ids := by
  rw [lineBehind, lineBehind, List.filterMap_cons]
  cases owned id with
  | none => rfl
  | some here => rw [List.getLast?_cons, Option.getD_some, Option.getD_some]

/-- Behind two sequences, the line is that behind the second from where the first left it. -/
theorem lineBehind_append (ids' : List Handle) :
    lineBehind owned line (ids ++ ids') = lineBehind owned (lineBehind owned line ids) ids' := by
  induction ids generalizing line with
  | nil => rfl
  | cons id rest ih => rw [List.cons_append, lineBehind_cons, lineBehind_cons, ih]

/-- Only the lines of the instructions passed count. -/
theorem lineBehind_congr (h : ∀ id ∈ ids, owned id = owned' id) :
    lineBehind owned line ids = lineBehind owned' line ids := by
  rw [lineBehind, lineBehind, List.filterMap_congr h]

/-- The last of the instructions `ids` that starts a line. -/
def lastStarter? (owned : Handle → Option UInt32) (ids : List Handle) : Option Handle :=
  (ids.filter fun id => (owned id).isSome).getLast?

/-- When some of the lines count no more, there is the same line in effect where that of the last
    starter still counts. -/
theorem lineBehind_of_lastStarter (hsub : ∀ id here, owned id = some here → owned' id = some here)
    (hlast : ∀ id, lastStarter? owned' ids = some id → owned id ≠ none) :
    lineBehind owned line ids = lineBehind owned' line ids := by
  -- Instructions behind the last starter start nothing on either side.
  induction ids using List.reverseRecOn with
  | nil => rfl
  | append_singleton ids id ih =>
    rw [lineBehind_append, lineBehind_append, lineBehind_cons, lineBehind_cons]
    rw [lastStarter?, List.filter_append] at hlast
    simp only [lineBehind_nil]
    cases hid' : owned' id with
    | none =>
      have hid : owned id = none := by
        by_contra hne
        obtain ⟨here, hhere⟩ := Option.ne_none_iff_exists'.1 hne
        simp [hsub id here hhere] at hid'
      rw [hid, Option.getD_none, Option.getD_none]
      apply ih
      simpa [hid', lastStarter?] using hlast
    | some here =>
      have hne : owned id ≠ none := hlast id (by simp [hid'])
      obtain ⟨here', hhere'⟩ := Option.ne_none_iff_exists'.1 hne
      rw [hhere', ← hid', hsub id here' hhere', Option.getD_some, Option.getD_some]

end

/-- Lines that are filled in are those behind the instructions. -/
theorem Fills.getElem?_eq {owns : Handle → UInt32 → Prop} {owned : Handle → Option UInt32}
    (howned : ∀ id line, owned id = some line ↔ owns id line) {line : UInt32} {ids : List Handle}
    {lines : List UInt32} (h : Fills owns line ids lines) {k : Nat} (hk : k < ids.length) :
    lines[k]? = some (lineBehind owned line (ids.take (k + 1))) := by
  induction h generalizing k with
  | nil => cases hk
  | owned howns _ ih =>
    rw [List.take_succ_cons, lineBehind_cons, (howned _ _).2 howns, Option.getD_some]
    cases k with
    | zero => rfl
    | succ k => exact ih (Nat.lt_of_succ_lt_succ hk)
  | @unowned line id ids lines howns _ ih =>
    have hnone : owned id = none :=
      Option.eq_none_iff_forall_not_mem.2 fun here hhere => howns here ((howned _ _).1 hhere)
    rw [List.take_succ_cons, lineBehind_cons, hnone, Option.getD_none]
    cases k with
    | zero => rfl
    | succ k => exact ih (Nat.lt_of_succ_lt_succ hk)

/-! ### Queries and stored lines -/

namespace Body

variable {b : Body} {e : Encoding} {id : Handle} {k : Nat}

/-- The lines filled in for live instructions are those behind them. -/
theorem lookup_linesFrom {lines : LineMap} {line : UInt32} {ids : List Handle} (hids : ids.Nodup)
    (hid : ids[k]? = some id) :
    (linesFrom lines line ids).lookup id =
      some (lineBehind lines.get? line (ids.take (k + 1))) := by
  induction ids generalizing k line with
  | nil => cases hid
  | cons head rest ih =>
    obtain ⟨hhead, hrest⟩ := List.nodup_cons.1 hids
    rw [linesFrom, List.take_succ_cons, lineBehind_cons, LineMap.lookup_cons_eq]
    cases k with
    | zero =>
      cases hid
      exact if_pos rfl
    | succ k =>
      rw [List.getElem?_cons_succ] at hid
      have hne : id ≠ head := by
        rintro rfl
        exact hhead (List.mem_of_getElem? hid)
      rw [if_neg hne]
      exact ih hrest hid

/-- **Queries.** The line of a live instruction is that behind the instructions up to it, where
    only entries of live instructions count. -/
theorem lineOf_eq (h : b.instrs.Nodup) (hid : b.instrs[k]? = some id) :
    b.lineOf id = some (lineBehind b.lines.get? b.firstlineno (b.instrs.take (k + 1))) :=
  lookup_linesFrom h hid

/-- **Stored lines.** The line in effect at a live instruction is that behind the instructions up to
    it, where inherited lines count too. -/
theorem lineAt_storedLines (h : b.Sound) (hsize : b.codeSize e < UInt32.size)
    (hk : k < b.instrs.length) (line : UInt32) :
    (LineTable.lineAt (b.storedLines (b.layout e)) (e.offsetAt b.opcodes k)).getD line =
      lineBehind b.ownedLine? line (b.instrs.take (k + 1)) := by
  have hfills := fills_lineAt (b := b) (pairwise_layout (b := b) (e := e))
    (fun p hp => Nat.lt_trans (offset_lt_codeSize hp) hsize) line
  rw [map_id_layout h] at hfills
  have hline := hfills.getElem?_eq (fun _ _ => ownedLine?_eq_some) hk
  have hcode : k < b.code.length := by rwa [length_code h]
  have hplace : k < (b.layout e).length := by rwa [length_layout]
  rw [List.getElem?_map, List.getElem?_eq_getElem hplace, Option.map_some,
    getElem_layout k hplace hcode] at hline
  rw [storedLines_layout h]
  exact Option.some.inj hline

/-- Without instructions that took over, nobody inherits a line. -/
theorem ownedLine?_of_stolenBy (h : ∀ id, b.pool.stolenBy id = none) :
    b.ownedLine? = b.lines.get? := by
  funext id
  have hnone : (b.lines.entries.find? fun entry => b.leavesTo id entry.1) = none := by
    refine List.find?_eq_none.2 fun entry _ => ?_
    simp [leavesTo, Pool.successor, h]
  rw [ownedLine?, hnone, Option.map_none, Option.or_none]

end Body

/-- Nobody has stolen from instructions of a new pool. -/
theorem Pool.stolenBy_ofInstrs (instrs : List Instr) (id : Handle) :
    (Pool.ofInstrs instrs).stolenBy id = none := by
  rw [Pool.ofInstrs, Pool.stolenBy_foldl_link]
  have hempty : ({} : Pool).stolenBy id = none := rfl
  refine List.foldlRecOn instrs _ (motive := fun p : Pool => p.stolenBy id = none) hempty
    fun p hp i _ => ?_
  rw [Pool.stolenBy_push, hp]

namespace Routine

variable {c c' : Routine} {e : Encoding} {raw : StoredUnit} {id : Handle} {k : Nat}

/-- **Line tables.** The line table of a stored unit gives every live instruction the line behind
    the instructions up to it. -/
theorem lineAt_of_store (hc : c.Sound) (h : c.store? { encoding := some e } = .ok raw) :
    ∃ starts, LineTable.decode raw.lineTable raw.firstlineno e.lineFormat = .ok starts ∧
      ∀ before id behind, c.instrs = before ++ id :: behind →
        (Body.offsetOf? (c.layout e) id).bind (LineTable.lineAt starts) =
          some (lineBehind c.ownedLine? c.firstlineno (before ++ [id])) := by
  obtain ⟨code, lineTable, hsize, -, hlines, rfl⟩ := store?_eq_ok.1 h
  have hsorted := (LineTable.encodeFrom_eq_ok.1 hlines).1.ordered
  refine ⟨_, LineTable.decode_encode (LineTable.usable_lineFormat e) hlines, ?_⟩
  intro before id behind hinstrs
  have hk : before.length < c.instrs.length := by simp [hinstrs]
  have hid : c.instrs[before.length]? = some id := by simp [hinstrs]
  have hcode : before.length < c.code.length := by rwa [Body.length_code hc]
  have hplace : before.length < (c.layout e).length := by rwa [Body.length_layout]
  -- The instruction is placed at the offset of its position.
  have hoffset : Body.offsetOf? (c.layout e) id = some (e.offsetAt c.opcodes before.length) := by
    refine (Body.offsetOf?_eq_some hc).2 ⟨_, List.getElem_mem hplace, ?_, ?_⟩
    · rw [Body.getElem_layout _ hplace hcode]
      rw [List.getElem?_eq_getElem hk, ← (Body.getElem_code hc hcode hk).1] at hid
      exact Option.some.inj hid
    · rw [Body.getElem_layout _ hplace hcode]
  have htake : c.instrs.take (before.length + 1) = before ++ [id] := by
    rw [hinstrs, List.take_length_add_append]
    rfl
  rw [hoffset, Option.bind_some, LineTable.lineAt_normal hsorted,
    Body.lineAt_storedLines hc hsize hk, htake]
  rfl

/-- The line that a loaded routine is asked for is the one that the table of its unit gives. -/
theorem lineOf_loaded {walked : List Located} {starts : List LineStart} {lines : LineMap}
    {shape : List Instr} (h : Represents raw e walked shape) (hsize : raw.code.length < UInt32.size)
    (hlines : lineMap walked starts = .ok lines)
    (hsorted : starts.Pairwise (·.offset < ·.offset)) (signature : Signature)
    (hk : k < shape.length) :
    (loaded raw e shape lines signature).lineOf k =
      some ((LineTable.lineAt starts (e.offsetAt (opcodesOf walked) k)).getD raw.firstlineno) := by
  have hsound := sound_loaded h lines signature
  have hlen : (loaded raw e shape lines signature).instrs.length = shape.length := by
    simp [loaded]
  have hops : (loaded raw e shape lines signature).opcodes = opcodesOf walked := by
    rw [h.opcodesOf_eq, ← Body.opcodes_shape, shape_loaded h]
  -- Nobody has taken over in a loaded routine, so live entries are all that there is to a query.
  have howned := Body.ownedLine?_of_stolenBy (b := (loaded raw e shape lines signature).toBody)
    (Pool.stolenBy_ofInstrs shape)
  have hsize' := (codeSize_loaded h lines signature).trans_lt hsize
  have hstored := Body.lineAt_storedLines hsound hsize' (hlen ▸ hk) raw.firstlineno
  rw [storedLines_loaded h hlines hsorted, hops, howned] at hstored
  rw [hstored]
  refine Body.lineOf_eq hsound.distinct ?_
  simp [loaded, hk]

/-- **Line queries.** What is loaded from the stored unit of a routine is asked for the lines that
    the routine owns, inherited ones included, and the routine itself for its live entries only.
    Both give the same line where the line in effect was started by an instruction with an entry of
    its own, or by none. -/
theorem lineOf_of_load (hc : c.Sound) (hstore : c.store? { encoding := some e } = .ok raw)
    (hload : load? raw e = .ok c') (hid : c.instrs[k]? = some id) :
    ∃ id', c'.instrs[k]? = some id' ∧
      c'.lineOf id' = some (lineBehind c.ownedLine? c.firstlineno (c.instrs.take (k + 1))) ∧
      c.lineOf id = some (lineBehind c.lines.get? c.firstlineno (c.instrs.take (k + 1))) ∧
      ((∀ starter, lastStarter? c.ownedLine? (c.instrs.take (k + 1)) = some starter →
        c.lines.get? starter ≠ none) → c.lineOf id = c'.lineOf id') := by
  have hk : k < c.instrs.length := (List.getElem?_eq_some_iff.1 hid).1
  obtain ⟨walked, hrep⟩ := represents_of_store hc hstore
  obtain ⟨code, lineTable, hsize, -, hlines, rfl⟩ := store?_eq_ok.1 hstore
  obtain ⟨walked', shape, lines, signature, hrep', hread, -, rfl⟩ := load?_eq_ok.1 hload
  -- Both describe the same bytes.
  obtain rfl : walked = walked' :=
    Except.ok.inj ((walk_eq_ok.2 hrep.walks).symm.trans (walk_eq_ok.2 hrep'.walks))
  obtain rfl : c.shape = shape := Except.ok.inj (hrep.instrs.symm.trans hrep'.instrs)
  have hshape : k < c.shape.length := by rwa [Body.length_shape hc]
  have hne : walked ≠ [] := by
    rw [hrep.length_eq] at hshape
    exact List.ne_nil_of_length_pos (Nat.zero_lt_of_lt hshape)
  have hencoded := (LineTable.encodeFrom_eq_ok.1 hlines).1.ordered
  have hnormal := (LineTable.encodeFrom_eq_ok.1 (LineTable.encode_normal hlines)).1.ordered
  have hdecode := LineTable.decode_encode (LineTable.usable_lineFormat e) hlines
  obtain ⟨starts, hstarts, hmap⟩ := (readLines_eq_ok hne).1 hread
  obtain rfl : _ = starts := Except.ok.inj (hdecode.symm.trans hstarts)
  have hafter := lineOf_loaded hrep (codeSize_of_represents hrep ▸ hsize) hmap hnormal signature
    hshape
  rw [LineTable.lineAt_normal hencoded, hrep.opcodesOf_eq, Body.opcodes_shape, Option.getD_some,
    Body.lineAt_storedLines hc hsize hk] at hafter
  have hbefore := Body.lineOf_eq hc.distinct hid
  refine ⟨k, by simp [loaded, hshape], hafter, hbefore, fun hstarter => ?_⟩
  rw [hafter, hbefore]
  refine congrArg some (lineBehind_of_lastStarter (fun id here hhere => ?_) hstarter)
  rw [Body.ownedLine?, hhere, Option.some_or]

/-- The second instruction of `spliced`, which inherits nothing. -/
theorem lineOf_of_load_spliced :
    ∃ raw c' id', spliced.store? { encoding := some .wordcode } = .ok raw ∧
      load? raw .wordcode = .ok c' ∧ spliced.instrs[1]? = some 3 ∧ c'.instrs[1]? = some id' ∧
      spliced.lineOf 3 = c'.lineOf id' := by
  have hsound : spliced.Sound := by decide +kernel
  have hloads : ((spliced.store? { encoding := some .wordcode }).toOption.bind fun raw =>
      (load? raw .wordcode).toOption).isSome = true := by decide +kernel
  obtain ⟨c', hc'⟩ := Option.isSome_iff_exists.1 hloads
  obtain ⟨raw, hstore, hload⟩ := Option.bind_eq_some_iff.1 hc'
  have hstarter : lastStarter? spliced.ownedLine? (spliced.instrs.take 2) = some 3 := by
    decide +kernel
  have hinstr : spliced.instrs[1]? = some 3 := rfl
  obtain ⟨id', hid', -, -, hagree⟩ :=
    lineOf_of_load hsound (eq_ok_of_toOption hstore) (eq_ok_of_toOption hload) hinstr
  refine ⟨raw, c', id', eq_ok_of_toOption hstore, eq_ok_of_toOption hload, hinstr, hid',
    hagree fun starter hlast => ?_⟩
  rw [hstarter] at hlast
  cases hlast
  decide +kernel

/-- An instruction with line `5` that another one took over from. -/
def inheriting : Draft where
  pool := Pool.afterCalls {} [.insertMany [(.nop, .none), (.nop, .none)], .steal 1 0]
  instrs := [1]
  lines := .ofList [(0, 5)]

/-- **Inherited lines.** The query does not find the line that is stored for the same
    instruction. -/
theorem lineOf_inheriting :
    ∃ c raw c', ofDraft? inheriting = .ok c ∧ c.store? { encoding := some .wordcode } = .ok raw ∧
      load? raw .wordcode = .ok c' ∧ c.instrs[0]? = some 1 ∧ c'.instrs[0]? = some 0 ∧
      c.lineOf 1 = some 0 ∧ c'.lineOf 0 = some 5 := by
  have hruns : ((ofDraft? inheriting).toOption.bind fun c =>
      (c.store? { encoding := some .wordcode }).toOption.bind fun raw =>
      (load? raw .wordcode).toOption.map fun c' =>
        (c.instrs[0]?, c'.instrs[0]?, c.lineOf 1, c'.lineOf 0)) =
          some (some 1, some 0, some 0, some 5) := by
    decide +kernel
  obtain ⟨c, hc, hruns⟩ := Option.bind_eq_some_iff.1 hruns
  obtain ⟨raw, hstore, hruns⟩ := Option.bind_eq_some_iff.1 hruns
  obtain ⟨c', hload, hlines⟩ := Option.map_eq_some_iff.1 hruns
  simp only [Prod.mk.injEq] at hlines
  exact ⟨c, raw, c', eq_ok_of_toOption hc, eq_ok_of_toOption hstore, eq_ok_of_toOption hload,
    hlines⟩

end Routine

end StackCode

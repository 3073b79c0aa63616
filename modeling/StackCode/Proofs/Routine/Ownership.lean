import Mathlib.Data.List.Sort
import StackCode.Proofs.LineTable.InEffect
import StackCode.Proofs.Pool.Calls
import StackCode.Proofs.Pool.Successors
import StackCode.Proofs.Routine.Storing

namespace StackCode

/-!
# Line ownership

Lines by offset are gathered in two rounds: live instructions put their own lines first, and dead
ones add theirs where there is none.  Since later entries do not replace earlier ones, this comes to
one owner for each line, told by handles alone; offsets only bring the lines in order.

* `Body.LineSource` — the entry that an instruction has its line from: its own, or that of an
  instruction that left the sequence.
* `Body.storedLines_layout` — the stored lines are those that live instructions own.
* `Fills` — the lines in effect in a sequence, from the lines that its members own.
* `Routine.lines_of_store` — a line table gives every instruction the line filled in from those
  owned, and entries that nobody has a line from count for nothing.
-/

/-! ### Owned lines -/

namespace Body

variable {b : Body} {e : Encoding} {id : Handle} {line : UInt32} {offset : Nat}

/-- The entry that the live instruction `id` has its line from: its own or, if there is none, that
    of the least dead instruction whose first live successor it is. -/
inductive LineSource (b : Body) (id : Handle) : Handle → Prop where
  | own (hown : b.lines.get? id ≠ none) : LineSource b id id
  | inherited {dead : Handle} (hnone : b.lines.get? id = none) (hdead : dead ∉ b.instrs)
      (hline : b.lines.get? dead ≠ none) (hheir : b.pool.Heir (· ∈ b.instrs) dead id)
      (hleast : ∀ other < dead, other ∉ b.instrs → b.pool.Heir (· ∈ b.instrs) other id →
        b.lines.get? other = none) : LineSource b id dead

/-- The live instruction `id` starts `line`. -/
def Owns (b : Body) (id : Handle) (line : UInt32) : Prop :=
  ∃ key, b.LineSource id key ∧ b.lines.get? key = some line

/-- The instruction `dead` is out of use, and its first live successor is `id`. -/
def leavesTo (b : Body) (id dead : Handle) : Bool :=
  dead ∉ b.instrs ∧ b.pool.successor dead (· ∈ b.instrs) = some id

/-- A line leaves a dead instruction for its heir among the live ones. -/
theorem leavesTo_iff {dead : Handle} :
    b.leavesTo id dead = true ↔ dead ∉ b.instrs ∧ b.pool.Heir (· ∈ b.instrs) dead id := by
  rw [leavesTo, decide_eq_true_eq, Pool.successor_eq_some]

/-- The line that an instruction starts. -/
def ownedLine? (b : Body) (id : Handle) : Option UInt32 :=
  (b.lines.get? id).or ((b.lines.entries.find? fun entry => b.leavesTo id entry.1).map (·.2))

/-- The owned line can be computed. -/
theorem ownedLine?_eq_some : b.ownedLine? id = some line ↔ b.Owns id line := by
  rw [ownedLine?, Option.or_eq_some_iff, Option.map_eq_some_iff]
  simp only [LineMap.find?_entries (b.leavesTo id)]
  constructor
  · rintro (hown | ⟨hnone, ⟨dead, _⟩, ⟨hline, hleaves, hleast⟩, rfl⟩)
    · exact ⟨id, .own (by rw [hown]; nofun), hown⟩
    · obtain ⟨hdead, hheir⟩ := leavesTo_iff.1 hleaves
      refine ⟨dead, .inherited hnone hdead (by rw [hline]; nofun) hheir ?_, hline⟩
      intro other hlt hother hheir
      exact hleast other hlt (leavesTo_iff.2 ⟨hother, hheir⟩)
  · rintro ⟨key, hsource, hline⟩
    cases hsource with
    | own _ => exact .inl hline
    | inherited hnone hdead _ hheir hleast =>
      refine .inr ⟨hnone, ⟨key, line⟩, ⟨hline, leavesTo_iff.2 ⟨hdead, hheir⟩, ?_⟩, rfl⟩
      intro other hlt hleaves
      obtain ⟨hother, hheir⟩ := leavesTo_iff.1 hleaves
      exact hleast other hlt hother hheir

/-- An instruction without a line has no entry, and no dead instruction with one leaves to it. -/
theorem ownedLine?_eq_none : b.ownedLine? id = none ↔
    b.lines.get? id = none ∧ ∀ key, b.leavesTo id key = true → b.lines.get? key = none := by
  rw [ownedLine?, Option.or_eq_none_iff, Option.map_eq_none_iff, List.find?_eq_none]
  refine and_congr_right fun _ => ⟨fun h key hkey => ?_, fun h entry hentry hkey => ?_⟩
  · refine Option.eq_none_iff_forall_not_mem.2 fun l hl => ?_
    exact h (key, l) (LineMap.mem_entries.2 hl) hkey
  · have hline := LineMap.mem_entries.1 hentry
    rw [h entry.1 hkey] at hline
    cases hline

/-- When entries that nobody has a line from are dropped or changed, live instructions own the same
    lines. -/
theorem ownedLine?_withLines {m : LineMap} (hid : id ∈ b.instrs)
    (hkeep : ∀ key, (∃ id ∈ b.instrs, b.LineSource id key) → m.get? key = b.lines.get? key)
    (hnew : ∀ key, b.lines.get? key = none → m.get? key = none) :
    ownedLine? { b with lines := m } id = b.ownedLine? id := by
  cases howned : b.ownedLine? id with
  | none =>
    obtain ⟨hnone, hdead⟩ := ownedLine?_eq_none.1 howned
    exact ownedLine?_eq_none.2 ⟨hnew id hnone, fun key hkey => hnew key (hdead key hkey)⟩
  | some line =>
    obtain ⟨key, hsource, hline⟩ := ownedLine?_eq_some.1 howned
    have hsame := hkeep key ⟨id, hid, hsource⟩
    refine ownedLine?_eq_some.2 ⟨key, ?_, hsame.trans hline⟩
    cases hsource with
    | own hown => exact .own (hsame ▸ hown)
    | inherited hnone hdead hown hheir hleast =>
      refine .inherited (hnew id hnone) hdead (hsame ▸ hown) hheir fun other hlt hother hheir => ?_
      exact hnew other (hleast other hlt hother hheir)

/-! ### Places of live instructions -/

/-- All live instructions are laid out, in their order. -/
theorem map_id_layout (h : b.Sound) : (b.layout e).map (·.id) = b.instrs := by
  rw [← map_fst_code h]
  refine List.ext_getElem (by simp) fun k hk hk' => ?_
  rw [List.getElem_map, List.getElem_map, getElem_layout]

/-- Placed instructions stand in the order of their offsets. -/
theorem pairwise_layout : (b.layout e).Pairwise (·.offset < ·.offset) := by
  refine List.pairwise_iff_getElem.2 fun j k hj hk hjk => ?_
  rw [length_layout] at hj hk
  rw [getElem_layout j _ hj, getElem_layout k _ hk]
  exact e.offsetAt_lt b.opcodes hjk (by rw [opcodes, List.length_map]; exact Nat.le_of_lt hk)

/-- Only instructions in use have a place. -/
theorem offsetOf?_eq_none (h : b.Sound) : offsetOf? (b.layout e) id = none ↔ id ∉ b.instrs := by
  rw [← map_id_layout h (e := e), offsetOf?, Option.map_eq_none_iff, List.find?_eq_none]
  simp

/-- The place of an instruction is that in the layout. -/
theorem offsetOf?_eq_some (h : b.Sound) : offsetOf? (b.layout e) id = some offset ↔
    ∃ p ∈ b.layout e, p.id = id ∧ p.offset = offset := by
  have hids : ((b.layout e).map (·.id)).Nodup := by
    rw [map_id_layout h]
    exact h.distinct
  rw [offsetOf?, Option.map_eq_some_iff]
  constructor
  · rintro ⟨p, hp, hoffset⟩
    exact ⟨p, List.mem_of_find?_eq_some hp, by simpa using List.find?_some hp, hoffset⟩
  · rintro ⟨p, hp, rfl, hoffset⟩
    have hfound : ((b.layout e).find? (·.id = p.id)).isSome = true :=
      List.find?_isSome.2 ⟨p, hp, by simp⟩
    obtain ⟨q, hq⟩ := Option.isSome_iff_exists.1 hfound
    have hqp : q = p := List.inj_on_of_nodup_map hids (List.mem_of_find?_eq_some hq) hp
      (by simpa using List.find?_some hq)
    exact ⟨p, hqp ▸ hq, hoffset⟩

/-- No two instructions have the same place. -/
theorem offsetOf?_inj (h : b.Sound) (hid : offsetOf? (b.layout e) id = some offset) (j : Handle) :
    offsetOf? (b.layout e) j = some offset ↔ j = id := by
  refine ⟨fun hj => ?_, fun hj => hj ▸ hid⟩
  obtain ⟨p, hp, rfl, rfl⟩ := (offsetOf?_eq_some h).1 hid
  obtain ⟨q, hq, rfl, hoffset⟩ := (offsetOf?_eq_some h).1 hj
  have hoffsets : ((b.layout e).map (·.offset)).Nodup :=
    List.pairwise_map.2 (pairwise_layout.imp fun hlt => Nat.ne_of_lt hlt)
  rw [List.inj_on_of_nodup_map hoffsets hq hp hoffset]

/-! ### Stored lines -/

/-- Where the line of an instruction that is out of use moves to. -/
def movesTo? (b : Body) (placed : List Placed) (dead : Handle) : Option Nat :=
  match offsetOf? placed dead with
  | some _ => none
  | none => (b.pool.successor dead fun id => (offsetOf? placed id).isSome).bind (offsetOf? placed)

/-- The lines that move are those of dead instructions, each to the place of its heir. -/
theorem movedLines_eq (placed : List Placed) : b.movedLines placed =
    b.lines.entries.filterMap fun entry => (b.movesTo? placed entry.1).map (·, entry.2) := by
  refine List.filterMap_congr fun entry _ => ?_
  unfold movesTo?
  cases offsetOf? placed entry.1 with
  | some _ => rfl
  | none => exact (Option.map_bind ..).symm

/-- A line moves to the place of an instruction when it leaves for that instruction. -/
theorem movesTo?_eq_some (h : b.Sound) (hid : offsetOf? (b.layout e) id = some offset)
    (dead : Handle) :
    b.movesTo? (b.layout e) dead = some offset ↔ b.leavesTo id dead = true := by
  have haccept : (fun j => (offsetOf? (b.layout e) j).isSome) = fun j => decide (j ∈ b.instrs) := by
    funext j
    rw [Bool.eq_iff_iff, Option.isSome_iff_ne_none, Ne, offsetOf?_eq_none h, not_not,
      decide_eq_true_eq]
  rw [movesTo?, leavesTo, decide_eq_true_eq, ← offsetOf?_eq_none h (e := e), haccept]
  cases offsetOf? (b.layout e) dead with
  | some _ => simp
  | none =>
    simp only [Option.bind_eq_some_iff, offsetOf?_inj h hid, exists_eq_right, true_and]

/-- The lines that placed instructions own, by offset. -/
def ownedEntries (b : Body) (placed : List Placed) : List (Nat × UInt32) :=
  placed.filterMap fun p => (b.ownedLine? p.id).map (p.offset, ·)

/-- The line starts of the lines that placed instructions own. -/
def ownedStarts (b : Body) (placed : List Placed) : List LineStart :=
  (b.ownedEntries placed).map LineStart.ofEntry

/-- The owned lines are entered at the places of their owners. -/
theorem mem_ownedEntries {placed : List Placed} {entry : Nat × UInt32} :
    entry ∈ b.ownedEntries placed ↔
      ∃ p ∈ placed, b.ownedLine? p.id = some entry.2 ∧ p.offset = entry.1 := by
  rw [ownedEntries, List.mem_filterMap]
  refine exists_congr fun p => and_congr_right fun _ => ?_
  rw [Option.map_eq_some_iff]
  constructor
  · rintro ⟨line, howned, rfl⟩
    exact ⟨howned, rfl⟩
  · rintro ⟨howned, hoffset⟩
    exact ⟨entry.2, howned, by rw [hoffset]⟩

/-- Owned lines are entered in the order of their offsets. -/
theorem pairwise_ownedEntries {placed : List Placed} (h : placed.Pairwise (·.offset < ·.offset)) :
    (b.ownedEntries placed).Pairwise (·.1 < ·.1) := by
  refine List.pairwise_filterMap.2 (h.imp fun hlt s hs t ht => ?_)
  obtain ⟨_, -, rfl⟩ := Option.map_eq_some_iff.1 hs
  obtain ⟨_, -, rfl⟩ := Option.map_eq_some_iff.1 ht
  exact hlt

/-- At the place of a live instruction there is the line that it owns. -/
theorem mem_linesByOffset (h : b.Sound) {entry : Nat × UInt32}
    (hid : offsetOf? (b.layout e) id = some entry.1) :
    entry ∈ (b.linesByOffset (b.layout e)).entries ↔ b.ownedLine? id = some entry.2 := by
  have hown : (b.ownLines (b.layout e)).get? entry.1 = b.lines.get? id :=
    (LineMap.get?_foldl_place (offsetOf?_inj h hid) b.lines.sorted).trans Option.or_none
  have hmoved : (b.movedLines (b.layout e)).lookup entry.1 =
      (b.lines.entries.find? fun entry => b.leavesTo id entry.1).map (·.2) := by
    rw [movedLines_eq, LineMap.lookup_place]
    simp only [movesTo?_eq_some h hid, Bool.decide_eq_true]
  rw [ownedLine?, ← hown, ← hmoved, ← LineMap.get?_foldl_insertNew, ← LineMap.mem_entries,
    linesByOffset]

/-- **Lines by offset.** They are the lines that live instructions own, in order. -/
theorem entries_linesByOffset (h : b.Sound) :
    (b.linesByOffset (b.layout e)).entries = b.ownedEntries (b.layout e) := by
  have : Std.Irrefl fun s t : Nat × UInt32 => s.1 < t.1 := ⟨fun _ => Nat.lt_irrefl _⟩
  have : Std.Antisymm fun s t : Nat × UInt32 => s.1 < t.1 :=
    ⟨fun _ _ hst hts => absurd hts (Nat.lt_asymm hst)⟩
  -- Both lists are in order, and there are no lines at other places.
  refine (LineMap.sorted _).eq_of_mem_iff (pairwise_ownedEntries pairwise_layout) fun entry => ?_
  rw [mem_ownedEntries]
  constructor
  · intro hentry
    obtain ⟨k, hk, hoffset⟩ := offset_of_mem_linesByOffset h entry hentry
    have hcode : k < b.code.length := by rwa [length_code h]
    have hplace : k < (b.layout e).length := by rwa [length_layout]
    have hpoffset : (b.layout e)[k].offset = entry.1 := by
      rw [getElem_layout k hplace hcode]
      exact hoffset
    have hp := List.getElem_mem hplace
    have hid := (offsetOf?_eq_some h).2 ⟨_, hp, rfl, hpoffset⟩
    exact ⟨_, hp, (mem_linesByOffset h hid).1 hentry, hpoffset⟩
  · rintro ⟨p, hp, howned, hoffset⟩
    exact (mem_linesByOffset h ((offsetOf?_eq_some h).2 ⟨p, hp, rfl, hoffset⟩)).2 howned

/-- **Stored lines.** They are the lines that live instructions own, in order. -/
theorem storedLines_layout (h : b.Sound) :
    b.storedLines (b.layout e) = b.ownedStarts (b.layout e) := by
  rw [storedLines, entries_linesByOffset h, ownedStarts]

/-- The line starts of a routine whose size is a 32-bit number are in order. -/
theorem pairwise_storedLines (h : b.Sound) (hsize : b.codeSize e < UInt32.size) :
    (b.storedLines (b.layout e)).Pairwise (·.offset < ·.offset) := by
  have hfits : ∀ entry ∈ b.ownedEntries (b.layout e), entry.1 < UInt32.size := by
    intro entry hentry
    obtain ⟨p, hp, -, hoffset⟩ := mem_ownedEntries.1 hentry
    exact hoffset ▸ Nat.lt_trans (offset_lt_codeSize hp) hsize
  rw [storedLines_layout h, ownedStarts, List.pairwise_map]
  refine (pairwise_ownedEntries pairwise_layout).imp_of_mem fun hs ht hlt => ?_
  exact (UInt32.ofNat_lt_iff_lt (hfits _ hs) (hfits _ ht)).2 hlt

/-- **Idle entries.** Entries that nobody has a line from do not count for the stored lines. -/
theorem storedLines_withLines (h : b.Sound) {m : LineMap}
    (hkeep : ∀ key, (∃ id ∈ b.instrs, b.LineSource id key) → m.get? key = b.lines.get? key)
    (hnew : ∀ key, b.lines.get? key = none → m.get? key = none) :
    storedLines { b with lines := m } (b.layout e) = b.storedLines (b.layout e) := by
  have hm : Sound { b with lines := m } := ⟨h.known, h.distinct, h.fits, h.declared⟩
  refine (storedLines_layout hm).trans (.trans ?_ (storedLines_layout h).symm)
  refine congrArg (List.map LineStart.ofEntry) (List.filterMap_congr fun p hp => ?_)
  have hlive : p.id ∈ b.instrs := by
    rw [← map_id_layout h (e := e)]
    exact List.mem_map_of_mem hp
  rw [ownedLine?_withLines hlive hkeep hnew]

end Body

/-! ### Filling in -/

/-- The lines in effect in a sequence that starts in line `line`: an instruction that owns a line
    starts it, and others are on the line before them. -/
inductive Fills (owns : Handle → UInt32 → Prop) : UInt32 → List Handle → List UInt32 → Prop where
  | nil {line : UInt32} : Fills owns line [] []
  | owned {line here : UInt32} {id : Handle} {ids : List Handle} {lines : List UInt32}
      (howns : owns id here) (hrest : Fills owns here ids lines) :
      Fills owns line (id :: ids) (here :: lines)
  | unowned {line : UInt32} {id : Handle} {ids : List Handle} {lines : List UInt32}
      (howns : ∀ here, ¬owns id here) (hrest : Fills owns line ids lines) :
      Fills owns line (id :: ids) (line :: lines)

/-- The lines in effect at placed instructions are filled in from the lines that they own. -/
theorem Body.fills_lineAt {b : Body} {placed : List Placed}
    (hsorted : placed.Pairwise (·.offset < ·.offset))
    (hfits : ∀ p ∈ placed, p.offset < UInt32.size) (line : UInt32) :
    Fills b.Owns line (placed.map (·.id)) (placed.map fun p =>
      (LineTable.lineAt (b.ownedStarts placed) p.offset).getD line) := by
  -- The line in effect goes from each instruction to the next.
  induction placed generalizing line with
  | nil => exact .nil
  | cons p rest ih =>
    obtain ⟨hp, hrest⟩ := List.pairwise_cons.1 hsorted
    obtain ⟨hpfits, hrestfits⟩ := List.forall_mem_cons.1 hfits
    have hbehind : LineTable.lineAt (b.ownedStarts rest) p.offset = none := by
      refine LineTable.lineAt_of_lt fun s hs => ?_
      obtain ⟨entry, hentry, rfl⟩ := List.mem_map.1 hs
      obtain ⟨q, hq, -, hoffset⟩ := mem_ownedEntries.1 hentry
      rw [LineStart.ofEntry, ← hoffset, UInt32.toNat_ofNat_of_lt' (hrestfits q hq)]
      exact hp q hq
    rw [List.map_cons, List.map_cons]
    cases howned : b.ownedLine? p.id with
    | none =>
      have hstarts : b.ownedStarts (p :: rest) = b.ownedStarts rest := by
        rw [ownedStarts, ownedEntries, List.filterMap_cons, howned]
        rfl
      rw [hstarts, hbehind, Option.getD_none]
      refine .unowned (fun here hhere => ?_) (ih hrest hrestfits line)
      rw [ownedLine?_eq_some.2 hhere] at howned
      cases howned
    | some here =>
      have hstarts : b.ownedStarts (p :: rest) =
          LineStart.ofEntry (p.offset, here) :: b.ownedStarts rest := by
        rw [ownedStarts, ownedEntries, List.filterMap_cons, howned]
        rfl
      have hplace : (LineStart.ofEntry (p.offset, here)).offset.toNat = p.offset :=
        UInt32.toNat_ofNat_of_lt' hpfits
      have hlines : (rest.map fun q =>
          (LineTable.lineAt (b.ownedStarts (p :: rest)) q.offset).getD line) =
            rest.map fun q => (LineTable.lineAt (b.ownedStarts rest) q.offset).getD here := by
        refine List.map_congr_left fun q hq => ?_
        rw [hstarts, LineTable.lineAt_cons, hplace, if_pos (Nat.le_of_lt (hp q hq)),
          Option.getD_some]
        rfl
      rw [hlines, hstarts, LineTable.lineAt_cons, hplace, if_pos (Nat.le_refl _), hbehind,
        Option.getD_some, Option.getD_none]
      exact .owned (ownedLine?_eq_some.1 howned) (ih hrest hrestfits here)

namespace Routine

variable {c : Routine} {e : Encoding} {raw : StoredUnit}

/-- **Lines of a stored unit.** Its line table gives every live instruction the line that is filled
    in from the lines owned.  Whatever becomes of entries that no live instruction has its line
    from, the routine is stored in the same way. -/
theorem lines_of_store (hc : c.Sound) (h : c.store? { encoding := some e } = .ok raw) :
    (∃ starts lines,
      LineTable.decode raw.lineTable raw.firstlineno e.lineFormat = .ok starts ∧
        Fills c.Owns c.firstlineno c.instrs lines ∧
        c.instrs.map (fun id => (Body.offsetOf? (c.layout e) id).bind (LineTable.lineAt starts)) =
          lines.map some) ∧
    ∀ m : LineMap,
      (∀ key, (∃ id ∈ c.instrs, c.LineSource id key) → m.get? key = c.lines.get? key) →
      (∀ key, c.lines.get? key = none → m.get? key = none) →
      Routine.store? { c with lines := m } { encoding := some e } = .ok raw := by
  obtain ⟨code, lineTable, hsize, hcode, hlines, rfl⟩ := store?_eq_ok.1 h
  constructor
  · -- The table is read as the normal form of the owned lines, which has the same lines in effect.
    have hsorted := (LineTable.encodeFrom_eq_ok.1 hlines).1.ordered
    have hfills := Body.fills_lineAt (b := c.toBody)
      (Body.pairwise_layout (b := c.toBody) (e := e))
      (fun p hp => Nat.lt_trans (Body.offset_lt_codeSize hp) hsize) c.firstlineno
    rw [Body.map_id_layout hc] at hfills
    refine ⟨_, _, LineTable.decode_encode (LineTable.usable_lineFormat e) hlines, hfills, ?_⟩
    rw [← Body.map_id_layout hc (e := e), List.map_map, List.map_map]
    refine List.map_congr_left fun p hp => ?_
    have hplace := (Body.offsetOf?_eq_some hc).2 ⟨p, hp, rfl, rfl⟩
    show (Body.offsetOf? (c.layout e) p.id).bind _ = some _
    rw [hplace, Option.bind_some, LineTable.lineAt_normal hsorted, Body.storedLines_layout hc]
    rfl
  · intro m hkeep hnew
    -- The stored lines are the only part of the unit that depends on the line map.
    have hstored := Body.storedLines_withLines (e := e) hc hkeep hnew
    exact store?_eq_ok.2 ⟨code, lineTable, hsize, hcode, hstored ▸ hlines, rfl⟩

/-- A routine in which instructions with lines were replaced: instruction `2` inherits the line of
    `0` and not that of `1`, which is on the way, and `3` keeps its own line. -/
def spliced : Routine where
  pool := Pool.afterCalls {} [
    .insertMany [(.nop, .none), (.nop, .none), (.loadConst, .const .none), (.popTop, .none),
      (.nop, .none), (.loadConst, .const .none), (.returnValue, .none)],
    .steal 1 0, .steal 2 1, .steal 3 4]
  instrs := [2, 3, 5, 6]
  firstlineno := 4
  lines := .ofList [(0, 5), (1, 9), (3, 7), (4, 8)]
  flags := .ofList [.optimized, .newLocals, .noFree]

/-- Instruction `2` has its line from `0`, and those behind `3` stay on its line. -/
theorem lines_of_store_spliced :
    ∃ raw, spliced.store? { encoding := some .wordcode } = .ok raw ∧
      (∃ starts lines,
        LineTable.decode raw.lineTable raw.firstlineno Encoding.wordcode.lineFormat = .ok starts ∧
          Fills spliced.Owns 4 [2, 3, 5, 6] lines ∧
          [2, 3, 5, 6].map (fun id => (Body.offsetOf? (spliced.layout .wordcode) id).bind
            (LineTable.lineAt starts)) = lines.map some) := by
  have hsound : spliced.Sound := by decide +kernel
  have hstore : (spliced.store? { encoding := some .wordcode }).isOk = true := by decide +kernel
  obtain ⟨raw, hstore⟩ := exists_of_isOk hstore
  exact ⟨raw, hstore, (lines_of_store hsound hstore).1⟩

/-- Lines `5`, `7`, `7` and `7` are in effect, and the lines of `1` and `4` are not stored. -/
example : (spliced.layout .wordcode).map (fun p => spliced.ownedLine? p.id) =
      [some 5, some 7, none, none] ∧
    spliced.storedLines (spliced.layout .wordcode) = [⟨0, 5⟩, ⟨2, 7⟩] := by
  decide +kernel

end Routine

end StackCode

import StackCode.Proofs.LineMap
import StackCode.Proofs.Routine.Fields
import StackCode.Proofs.Routine.Loading

namespace StackCode

/-!
# Lines of stored and loaded routines

A line map of a routine goes by handles, a line table by offsets.  Positions stand between the two:
in a loaded routine they are the handles, and their offsets are in the order of the code.

* `Routine.lineMap_eq_ok` — the line map of line starts has one entry for each of them.
* `Body.offset_of_mem_linesByOffset`, `Body.offset_of_mem_storedLines` — the stored lines are those
  of live instructions.
* `Routine.storedLines_loaded` — a loaded routine stores the line starts that it was read from.
-/

/-! ### Stored lines -/

namespace Body

variable {b : Body} {e : Encoding}

/-- A place of the layout is the offset of a position. -/
theorem exists_of_offsetOf? (h : b.Sound) {id : Handle} {offset : Nat}
    (hoffset : offsetOf? (b.layout e) id = some offset) :
    ∃ k < b.instrs.length, e.offsetAt b.opcodes k = offset := by
  rw [offsetOf?_layout h] at hoffset
  obtain ⟨k, hk, rfl⟩ := Option.map_eq_some_iff.1 hoffset
  exact ⟨k, indexOf?_lt hk, rfl⟩

/-- Every line by offset is at the offset of a live instruction. -/
theorem offset_of_mem_linesByOffset (h : b.Sound) :
    ∀ entry ∈ (b.linesByOffset (b.layout e)).entries,
      ∃ k < b.instrs.length, e.offsetAt b.opcodes k = entry.1 := by
  -- Lines come in at places of the layout only, those of live instructions first.
  have hinsert : ∀ (m : LineMap) (key : Nat) (line : UInt32),
      (∀ entry ∈ m.entries, ∃ k < b.instrs.length, e.offsetAt b.opcodes k = entry.1) →
      (∃ k < b.instrs.length, e.offsetAt b.opcodes k = key) →
      ∀ entry ∈ (m.insert key line).entries,
        ∃ k < b.instrs.length, e.offsetAt b.opcodes k = entry.1 := by
    intro m key line hm hkey entry hentry
    rcases LineMap.mem_put hentry with rfl | hentry
    · exact hkey
    · exact hm entry hentry
  have hown : ∀ entry ∈ (b.ownLines (b.layout e)).entries,
      ∃ k < b.instrs.length, e.offsetAt b.opcodes k = entry.1 := by
    refine List.foldlRecOn b.lines.entries _ (motive := fun m : LineMap => ∀ entry ∈ m.entries,
      ∃ k < b.instrs.length, e.offsetAt b.opcodes k = entry.1) nofun fun m hm entry _ => ?_
    split
    · rename_i hoffset
      exact hinsert m _ _ hm (exists_of_offsetOf? h hoffset)
    · exact hm
  have hmoved : ∀ entry ∈ b.movedLines (b.layout e),
      ∃ k < b.instrs.length, e.offsetAt b.opcodes k = entry.1 := by
    intro entry hentry
    obtain ⟨line, -, hline⟩ := List.mem_filterMap.1 hentry
    split at hline
    · cases hline
    · obtain ⟨heir, -, hheir⟩ := Option.bind_eq_some_iff.1 hline
      obtain ⟨offset, hoffset, rfl⟩ := Option.map_eq_some_iff.1 hheir
      exact exists_of_offsetOf? h hoffset
  refine List.foldlRecOn (b.movedLines (b.layout e)) _ (motive := fun m : LineMap =>
    ∀ entry ∈ m.entries, ∃ k < b.instrs.length, e.offsetAt b.opcodes k = entry.1) hown
    fun m hm entry hmem => ?_
  unfold LineMap.insertNew
  split
  · exact hm
  · exact hinsert m _ _ hm (hmoved entry hmem)

/-- Offsets of a body whose size is a 32-bit number are kept as they are. -/
theorem toNat_offsetAt (hsize : b.codeSize e < UInt32.size) {k : Nat} (hk : k < b.opcodes.length) :
    (UInt32.ofNat (e.offsetAt b.opcodes k)).toNat = e.offsetAt b.opcodes k := by
  rw [codeSize_eq] at hsize
  exact UInt32.toNat_ofNat_of_lt' (Nat.lt_trans (e.offsetAt_lt b.opcodes hk (Nat.le_refl _)) hsize)

/-- **Stored lines.** Every stored line starts at the offset of a live instruction. -/
theorem offset_of_mem_storedLines (h : b.Sound) (hsize : b.codeSize e < UInt32.size) :
    ∀ s ∈ b.storedLines (b.layout e),
      ∃ k < b.instrs.length, e.offsetAt b.opcodes k = s.offset.toNat := by
  intro s hs
  obtain ⟨entry, hentry, rfl⟩ := List.mem_map.1 hs
  obtain ⟨k, hk, hoffset⟩ := offset_of_mem_linesByOffset h entry hentry
  have hops : k < b.opcodes.length := by rwa [opcodes, List.length_map, length_code h]
  refine ⟨k, hk, ?_⟩
  rw [LineStart.ofEntry, ← hoffset, toNat_offsetAt hsize hops]

end Body

/-! ### Loaded lines -/

namespace Routine

variable {unit : StoredUnit} {e : Encoding} {walked : List Located} {shape : List Instr}
  {lines : LineMap} {signature : Signature}

/-- The entries of a line map, by positions, that stand for line starts. -/
def EntriesOf (walked : List Located) (starts : List LineStart)
    (entries : List (Nat × UInt32)) : Prop :=
  List.Forall₂ (fun s entry => startingAt? walked s.offset.toNat = some entry.1 ∧ entry.2 = s.line)
    starts entries

/-- **Line starts.** There is a line map of starts when each of them is the offset of an
    instruction. -/
theorem lineMap_eq_ok {starts : List LineStart} :
    lineMap walked starts = .ok lines ↔
      ∃ entries, EntriesOf walked starts entries ∧ LineMap.ofList entries = lines := by
  -- The induction is on the starts, with the map of the starts before them.
  unfold lineMap LineMap.ofList
  generalize LineMap.empty = m
  induction starts generalizing m with
  | nil =>
    simp only [EntriesOf, List.forall₂_nil_left_iff]
    exact ⟨fun h => ⟨[], rfl, Except.ok.inj h⟩, fun ⟨_, hnil, h⟩ => by rw [← h, hnil]; rfl⟩
  | cons s rest ih =>
    rw [List.foldlM_cons, bind_eq_ok]
    simp only [EntriesOf, List.forall₂_cons_left_iff]
    constructor
    · rintro ⟨m', hm', h⟩
      split at hm'
      · rename_i k hk
        cases hm'
        obtain ⟨entries, hentries, hfold⟩ := (ih _).1 h
        exact ⟨(k, s.line) :: entries, ⟨_, entries, ⟨hk, rfl⟩, hentries, rfl⟩, hfold⟩
      · cases hm'
    · rintro ⟨_, ⟨⟨k, line⟩, entries, ⟨hk, rfl⟩, hentries, rfl⟩, hfold⟩
      refine ⟨m.insert k s.line, by rw [hk], (ih _).2 ⟨entries, hentries, hfold⟩⟩

variable {starts : List LineStart} {entries : List (Nat × UInt32)}

/-- No starts, no lines. -/
theorem lineMap_nil (walked : List Located) : lineMap walked [] = .ok .empty := rfl

/-- Starts at the offsets of positions have a line map. -/
theorem exists_lineMap (h : Walks e 0 unit.code walked)
    (hstarts : ∀ s ∈ starts,
      ∃ k < walked.length, e.offsetAt (opcodesOf walked) k = s.offset.toNat) :
    ∃ lines, lineMap walked starts = .ok lines := by
  have hentries : ∃ entries, EntriesOf walked starts entries := by
    induction starts with
    | nil => exact ⟨[], .nil⟩
    | cons s rest ih =>
      obtain ⟨⟨k, hk⟩, hrest⟩ := List.forall_mem_cons.1 hstarts
      obtain ⟨entries, hentries⟩ := ih hrest
      exact ⟨(k, s.line) :: entries, .cons ⟨(startingAt?_eq_some h).2 hk, rfl⟩ hentries⟩
  obtain ⟨entries, hentries⟩ := hentries
  exact ⟨_, lineMap_eq_ok.2 ⟨entries, hentries, rfl⟩⟩

/-- Every entry is that of an instruction of the unit. -/
theorem EntriesOf.lt_length (h : Represents unit e walked shape)
    (hentries : EntriesOf walked starts entries) : ∀ entry ∈ entries, entry.1 < walked.length := by
  induction hentries with
  | nil => nofun
  | cons hs _ ih =>
    exact List.forall_mem_cons.2 ⟨((startingAt?_eq_some h.walks).1 hs.1).1, ih⟩

/-- Every start is at the offset of the position in its entry. -/
theorem EntriesOf.map_offset (h : Represents unit e walked shape)
    (hentries : EntriesOf walked starts entries) :
    (entries.map fun entry => (e.offsetAt (opcodesOf walked) entry.1, entry.2)) =
      starts.map fun s => (s.offset.toNat, s.line) := by
  induction hentries with
  | nil => rfl
  | cons hs _ ih =>
    obtain ⟨hk, hline⟩ := hs
    rw [List.map_cons, List.map_cons, ih, ((startingAt?_eq_some h.walks).1 hk).2, hline]

/-- Starts in order are at offsets in order. -/
theorem EntriesOf.pairwise_offset (h : Represents unit e walked shape)
    (hentries : EntriesOf walked starts entries)
    (hsorted : starts.Pairwise (·.offset < ·.offset)) :
    (entries.map fun entry => (e.offsetAt (opcodesOf walked) entry.1, entry.2)).Pairwise
      (·.1 < ·.1) := by
  rw [hentries.map_offset h, List.pairwise_map]
  exact hsorted.imp UInt32.lt_iff_toNat_lt.1

/-- Starts in order have entries in order. -/
theorem EntriesOf.sorted (h : Represents unit e walked shape)
    (hentries : EntriesOf walked starts entries)
    (hsorted : starts.Pairwise (·.offset < ·.offset)) : entries.Pairwise (·.1 < ·.1) := by
  have hoffsets := hentries.pairwise_offset h hsorted
  rw [List.pairwise_map] at hoffsets
  refine hoffsets.imp_of_mem fun {x y} hx _ hlt => ?_
  have hx' := hentries.lt_length h x hx
  rcases Nat.lt_trichotomy x.1 y.1 with hxy | hxy | hxy
  · exact hxy
  · exact absurd hlt (by simp [hxy])
  · have := e.offsetAt_lt (opcodesOf walked) hxy (by rw [length_opcodesOf]; omega)
    exact absurd hlt (by dsimp only; omega)

/-- **Lines of a loaded routine.** A loaded routine stores the line starts that it was read
    from. -/
theorem storedLines_loaded (h : Represents unit e walked shape)
    (hlines : lineMap walked starts = .ok lines)
    (hsorted : starts.Pairwise (·.offset < ·.offset)) :
    (loaded unit e shape lines signature).storedLines
      ((loaded unit e shape lines signature).layout e) = starts := by
  obtain ⟨entries, hentries, rfl⟩ := lineMap_eq_ok.1 hlines
  have hkeys := hentries.sorted h hsorted
  generalize hc : loaded unit e shape (LineMap.ofList entries) signature = c
  have hes : c.lines.entries = entries := by
    rw [← hc]
    exact LineMap.entries_ofList hkeys
  -- All lines are those of live instructions, which are placed at the offsets they came from.
  have hplace : ∀ entry ∈ entries,
      Body.offsetOf? (c.layout e) entry.1 = some (e.offsetAt (opcodesOf walked) entry.1) := by
    intro entry hentry
    have hlt := hentries.lt_length h entry hentry
    rw [← h.length_eq] at hlt
    rw [← hc, Body.offsetOf?_layout (sound_loaded h _ _), indexOf?_loaded hlt, ← Body.opcodes_shape,
      shape_loaded h, ← h.opcodesOf_eq]
    rfl
  have hown : c.ownLines (c.layout e) = LineMap.ofList
      (entries.map fun entry => (e.offsetAt (opcodesOf walked) entry.1, entry.2)) := by
    rw [Body.ownLines, hes, LineMap.ofList, List.foldl_map]
    refine List.foldl_ext _ _ _ fun m entry hentry => ?_
    rw [hplace entry hentry]
  have hmoved : c.movedLines (c.layout e) = [] := by
    rw [Body.movedLines, hes]
    refine List.filterMap_eq_nil_iff.2 fun entry hentry => ?_
    rw [hplace entry hentry]
  have hoffset : ∀ s : LineStart, LineStart.ofEntry (s.offset.toNat, s.line) = s := by
    intro s
    rw [LineStart.ofEntry, UInt32.ofNat_toNat]
  rw [Body.storedLines, Body.linesByOffset, hown, hmoved, List.foldl_nil,
    LineMap.entries_ofList (hentries.pairwise_offset h hsorted), hentries.map_offset h,
    List.map_map]
  exact (List.map_congr_left fun s _ => hoffset s).trans (List.map_id starts)

end Routine

end StackCode

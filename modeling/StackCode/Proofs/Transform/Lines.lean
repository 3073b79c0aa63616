import StackCode.Proofs.Transform.Carrying

namespace StackCode

/-!
# Lines through a pass

When handlers set no lines and take nothing over from other code, what a pass copies starts the
lines that it did before.  Its line in effect is the same if the runs before it leave the same line
in effect as what takes their place.

* `Body.holder?` — the live instruction that a line entry counts for.
* `Body.Closed` — a body that refers to nothing beyond its pool, such as every loaded one
  (`Routine.closed_of_load`).
* `Firing.startedLine?`, `Firing.KeepsLine` — the lines that are started in place of a run, and what
  they have to come to.
* `Rewritten.ownedLine?_copied`, `Rewritten.ownedLine?_placed` — the lines owned after a pass.
* `Transform.lines_of_pass` — a copied instruction keeps its line in the stored unit.
* `Transform.line_shortened` — the line that a run starts is lost when nothing takes its place.
-/

open Pool (lastThief?)

/-! ### Holders -/

/-- The first entry that is selected by its key depends on the entries that are selected. -/
theorem LineMap.find?_congr {m m' : LineMap} {select select' : Handle → Bool}
    (h : ∀ key line, m.get? key = some line ∧ select key = true ↔
      m'.get? key = some line ∧ select' key = true) :
    (m.entries.find? fun entry => select entry.1) =
      m'.entries.find? fun entry => select' entry.1 := by
  have hleast : ∀ {m m' : LineMap} {select select' : Handle → Bool},
      (∀ key line, m.get? key = some line ∧ select key = true ↔
        m'.get? key = some line ∧ select' key = true) → ∀ entry,
      (m.entries.find? fun entry => select entry.1) = some entry →
      (m'.entries.find? fun entry => select' entry.1) = some entry := by
    intro m m' select select' h entry hentry
    obtain ⟨hget, hselect, hleast⟩ := (find?_entries select).1 hentry
    obtain ⟨hget', hselect'⟩ := (h entry.1 entry.2).1 ⟨hget, hselect⟩
    refine (find?_entries select').2 ⟨hget', hselect', fun k hk hk' => ?_⟩
    refine Option.eq_none_iff_forall_not_mem.2 fun line hline => ?_
    obtain ⟨hline', hk'⟩ := (h k line).2 ⟨hline, hk'⟩
    rw [hleast k hk hk'] at hline'
    cases hline'
  exact Option.ext fun entry => ⟨hleast h entry, hleast (fun k l => (h k l).symm) entry⟩

namespace Body

variable {b : Body} {id key : Handle}

/-- The live instruction that the line of an entry counts for: the one of the entry, or the first
    live one of those that took over from it. -/
def holder? (b : Body) (key : Handle) : Option Handle :=
  if key ∈ b.instrs then some key else b.pool.successor key (· ∈ b.instrs)

/-- The holder is the first live instruction on the way, which the entry may start with. -/
theorem holder?_eq_some : b.holder? key = some id ↔ b.pool.Holds (· ∈ b.instrs) key id := by
  unfold holder?
  by_cases hkey : key ∈ b.instrs
  · rw [if_pos hkey, Option.some.injEq]
    constructor
    · rintro rfl
      exact .here (decide_eq_true hkey)
    · exact fun h => (h.eq_of_accepted (decide_eq_true hkey)).symm
  · rw [if_neg hkey, Pool.successor_eq_some, Pool.heir_iff_holds (decide_eq_false hkey)]

/-- A live instruction holds its own entry. -/
theorem holder?_of_mem (h : key ∈ b.instrs) : b.holder? key = some key := if_pos h

/-- Holders are live. -/
theorem mem_of_holder? (h : b.holder? key = some id) : id ∈ b.instrs :=
  of_decide_eq_true (holder?_eq_some.1 h).accepted

/-- A dead instruction leaves its line to the holder of its entry. -/
theorem leavesTo_iff_holder? :
    b.leavesTo id key = true ↔ key ∉ b.instrs ∧ b.holder? key = some id := by
  rw [leavesTo_iff]
  refine and_congr_right fun hkey => ?_
  rw [holder?_eq_some, Pool.heir_iff_holds (decide_eq_false hkey)]

/-- The holder of an entry starts a line, this one or another. -/
theorem ownedLine?_ne_none (hholder : b.holder? key = some id) (hline : b.lines.get? key ≠ none) :
    b.ownedLine? id ≠ none := by
  intro hnone
  obtain ⟨hown, hdead⟩ := ownedLine?_eq_none.1 hnone
  by_cases hkey : key ∈ b.instrs
  · rw [holder?_of_mem hkey] at hholder
    cases hholder
    exact hline hown
  · exact hline (hdead key (leavesTo_iff_holder?.2 ⟨hkey, hholder⟩))

/-- The body is sound, its pool is such as calls make it, and thieves and line entries are
    instructions of the pool. -/
structure Closed (b : Body) : Prop where
  sound : b.Sound
  consistent : b.pool.Consistent
  thieves : b.pool.ThievesKnown
  lines : ∀ entry ∈ b.lines.entries, entry.1 < b.pool.size

/-- Entries of a closed body are those of instructions of the pool. -/
theorem Closed.lt_size (h : b.Closed) (hline : b.lines.get? key ≠ none) : key < b.pool.size := by
  obtain ⟨line, hline⟩ := Option.ne_none_iff_exists'.1 hline
  exact h.lines _ (LineMap.mem_entries.2 hline)

end Body

/-- Instructions that refer to each other make a pool as calls make it. -/
theorem Pool.consistent_ofInstrs {instrs : List Instr}
    (h : ∀ i ∈ instrs, Pool.Admits instrs.length i) : (Pool.ofInstrs instrs).Consistent := by
  refine Pool.consistent_empty.insertMany fun i hi => ?_
  rw [show Pool.size {} + instrs.length = instrs.length from Nat.zero_add _]
  exact h i hi

/-- **Loaded routines.** They are closed. -/
theorem Routine.closed_of_load {raw : StoredUnit} {e : Encoding} {c : Routine}
    (h : Routine.load? raw e = .ok c) : c.Closed := by
  obtain ⟨walked, shape, lines, signature, hrep, hread, -, rfl⟩ := Routine.load?_eq_ok.1 h
  have hsize : (Pool.ofInstrs shape).size = shape.length := by
    rw [Pool.ofInstrs, Pool.size_foldl_link, Pool.size_foldl_push]
    exact Nat.zero_add _
  refine ⟨Routine.sound_loaded hrep lines signature,
    Pool.consistent_ofInstrs fun i hi => ⟨Routine.fits_of_represents hrep i hi, fun t ht => ?_⟩,
    fun id thief hthief => ?_, fun entry hentry => ?_⟩
  · refine Routine.target_lt hrep i hi t ?_
    obtain ⟨opcode, operand⟩ := i
    cases operand <;> cases ht
    rfl
  · -- Nobody has stolen in the pool of a loaded routine.
    rw [show (Routine.loaded raw e shape lines signature).pool = .ofInstrs shape from rfl,
      Pool.stolenBy_ofInstrs] at hthief
    cases hthief
  · -- Entries are those of positions, which are the handles here.
    show entry.1 < (Pool.ofInstrs shape).size
    rw [hsize, hrep.length_eq]
    by_cases hne : walked = []
    · subst hne
      cases hread
      cases hentry
    · obtain ⟨starts, -, hmap⟩ := (Routine.readLines_eq_ok hne).1 hread
      obtain ⟨entries, hentries, rfl⟩ := Routine.lineMap_eq_ok.1 hmap
      exact hentries.lt_length hrep entry (LineMap.mem_of_mem_ofList hentry)

/-! ### Lines in place of a run -/

namespace Firing

variable {f : Firing} {b : Body} {id : Handle}

/-- Where the line of an instruction of the run goes: it stays, or goes to the last thief. -/
def passesTo? (f : Firing) (b : Body) (id : Handle) : Option Handle :=
  if id ∈ f.replacement then some id else f.thief? b id

/-- The line of the run goes to what takes its place. -/
theorem Contained.mem_of_passesTo? {out : List Handle} (h : f.Contained b out)
    (hid : id ∈ f.matched) (howned : b.ownedLine? id ≠ none) {place : Handle}
    (hpass : f.passesTo? b id = some place) : place ∈ f.replacement := by
  unfold passesTo? at hpass
  split at hpass
  · cases hpass
    assumption
  · exact h.passed id hid ‹_› howned place hpass

/-- The entry of `key` comes to `place`, by way of an instruction of the run. -/
def brings (f : Firing) (b : Body) (place key : Handle) : Bool :=
  (b.holder? key).any fun id => id ∈ f.matched ∧ f.passesTo? b id = some place

/-- An entry is brought by an instruction of the run, its holder. -/
theorem brings_eq_true {place key : Handle} : f.brings b place key = true ↔
    ∃ id, b.holder? key = some id ∧ id ∈ f.matched ∧ f.passesTo? b id = some place := by
  rw [brings, Option.any_eq_true]
  simp only [decide_eq_true_eq]

/-- The line that an instruction in place of the run starts: the one of its entry, the one that is
    carried on to it, or that of the least entry that comes to it. -/
def startedLine? (f : Firing) (b : Body) (place : Handle) : Option UInt32 :=
  ((b.lines.get? place).or (f.carried? b place)).or
    ((b.lines.entries.find? fun entry => f.brings b place entry.1).map (·.2))

/-- Behind what takes the place of the run there is the same line in effect as behind the run, when
    both start in line `line`. -/
def KeepsLine (f : Firing) (b : Body) (line : UInt32) : Prop :=
  lineBehind (f.startedLine? b) line f.replacement = lineBehind b.ownedLine? line f.matched

/-- Lines can be compared. -/
instance (f : Firing) (b : Body) (line : UInt32) : Decidable (f.KeepsLine b line) :=
  inferInstanceAs (Decidable (_ = _))

section

/-! Runs that start no line behind their first instruction, in a source in which nothing was taken
over. -/

variable {first : Handle} {rest : List Handle} {line : UInt32}
  (hmatched : f.matched = first :: rest) (hrest : ∀ id ∈ rest, b.lines.get? id = none)
  (hstolen : ∀ id, b.pool.stolenBy id = none)

include hmatched hrest

/-- Among the instructions of the run, only the first one has a line. -/
theorem eq_first_of_line (hid : id ∈ f.matched) (hline : b.lines.get? id = some line) :
    id = first := by
  rw [hmatched] at hid
  rcases List.mem_cons.1 hid with rfl | hid
  · rfl
  · rw [hrest id hid] at hline
    cases hline

include hstolen

/-- Behind the run the line is that of its first instruction, or the line before. -/
theorem lineBehind_matched (line : UInt32) :
    lineBehind b.ownedLine? line f.matched = (b.lines.get? first).getD line := by
  have hnone : rest.filterMap b.lines.get? = [] := List.filterMap_eq_nil_iff.2 hrest
  rw [Body.ownedLine?_of_stolenBy hstolen, hmatched, lineBehind_cons, lineBehind, hnone]
  rfl

/-- A line that is started in place of the run is that of its first instruction. -/
theorem line_of_startedLine?
    (hnew : ∀ place ∈ f.replacement, place ∉ f.matched → b.lines.get? place = none)
    {place : Handle} (hplace : place ∈ f.replacement) (hline : f.startedLine? b place = some line) :
    b.lines.get? first = some line := by
  rw [startedLine?, Option.or_eq_some_iff, Option.or_eq_some_iff] at hline
  -- A line is started by an entry of one's own, by carrying on, or by an entry that comes along.
  rcases hline with (hown | ⟨-, hcarried⟩) | ⟨-, hfound⟩
  · by_cases hmem : place ∈ f.matched
    · rwa [← eq_first_of_line hmatched hrest hmem hown]
    · rw [hnew place hplace hmem] at hown
      cases hown
  · unfold carried? at hcarried
    split at hcarried
    · rename_i first' rest' _ _ hmatched' _
      rw [hmatched] at hmatched'
      cases hmatched'
      split at hcarried
      · exact hcarried
      · cases hcarried
    · cases hcarried
  · obtain ⟨entry, hentry, rfl⟩ := Option.map_eq_some_iff.1 hfound
    obtain ⟨hline, hkey, -⟩ := (LineMap.find?_entries (f.brings b place)).1 hentry
    obtain ⟨id, hid, hmem, -⟩ := brings_eq_true.1 hkey
    -- Nobody took over in the source, so an entry is held by its own instruction.
    have hsame : entry.1 = id := by
      unfold Body.holder? at hid
      split at hid
      · exact Option.some.inj hid
      · rw [Pool.successor, hstolen] at hid
        cases hid
    rwa [← eq_first_of_line hmatched hrest (hsame ▸ hmem) hline]

end

/-- The line of the first instruction is started by what takes the place of the run. -/
theorem Contained.exists_starter {first : Handle} {rest out : List Handle} {line : UInt32}
    (h : f.Contained b out) (hmatched : f.matched = first :: rest) (hlive : first ∈ b.instrs)
    (hline : b.lines.get? first = some line) (hout : f.replacement ≠ []) :
    ∃ place ∈ f.replacement, (f.startedLine? b place).isSome = true := by
  have hfirst : first ∈ f.matched := hmatched ▸ List.mem_cons_self
  by_cases hkept : first ∈ f.replacement
  · exact ⟨first, hkept, by simp [startedLine?, hline]⟩
  · cases hthief : f.thief? b first with
    | none =>
      -- Without a thief the line is carried on to the head of the replacement.
      obtain ⟨head, others, hhead⟩ := List.exists_cons_of_ne_nil hout
      have hcarried : f.carried? b head = some line := by
        unfold carried?
        rw [hmatched, hhead]
        exact (if_pos ⟨rfl, hhead ▸ hkept, hthief⟩).trans hline
      exact ⟨head, hhead ▸ List.mem_cons_self, by simp [startedLine?, hcarried]⟩
    | some thief =>
      -- With a thief the entry comes along to the last of them, which takes the place of the run.
      have hholder := Body.holder?_of_mem hlive
      have howned := Body.ownedLine?_ne_none hholder (Option.ne_none_iff_exists'.2 ⟨line, hline⟩)
      have hkey : f.brings b thief first = true := by
        refine brings_eq_true.2 ⟨first, hholder, hfirst, ?_⟩
        rw [passesTo?, if_neg hkept, hthief]
      have hfound : (b.lines.entries.find? fun entry => f.brings b thief entry.1).isSome = true :=
        List.find?_isSome.2 ⟨(first, line), LineMap.mem_entries.2 hline, hkey⟩
      exact ⟨thief, h.passed first hfirst hkept howned thief hthief, by simp [startedLine?, hfound]⟩

/-- When nothing was taken over in the source, and the run starts no line behind its first
    instruction, the line in effect is kept by whatever takes the place of the run; if its first
    instruction starts a line, there has to be something. -/
theorem keepsLine_of_first {first : Handle} {rest out : List Handle}
    (hcontained : f.Contained b out) (hmatched : f.matched = first :: rest)
    (hlive : f.matched ⊆ b.instrs) (hstolen : ∀ id, b.pool.stolenBy id = none)
    (hnew : ∀ place ∈ f.replacement, place ∉ f.matched → b.lines.get? place = none)
    (hrest : ∀ id ∈ rest, b.lines.get? id = none)
    (hout : b.lines.get? first ≠ none → f.replacement ≠ []) (line : UInt32) :
    f.KeepsLine b line := by
  have hstarts : ∀ place ∈ f.replacement, ∀ l, f.startedLine? b place = some l →
      b.lines.get? first = some l := fun place hplace l =>
    line_of_startedLine? hmatched hrest hstolen hnew hplace
  rw [KeepsLine, lineBehind_matched hmatched hrest hstolen]
  cases hline : b.lines.get? first with
  | none =>
    have hnone : f.replacement.filterMap (f.startedLine? b) = [] := by
      refine List.filterMap_eq_nil_iff.2 fun place hplace => ?_
      refine Option.eq_none_iff_forall_not_mem.2 fun l hl => ?_
      rw [hstarts place hplace l hl] at hline
      cases hline
    rw [lineBehind, hnone]
    rfl
  | some l =>
    -- Some line is started, and the last one is that of the first instruction, too.
    have hfirst : first ∈ b.instrs := hlive (hmatched ▸ List.mem_cons_self)
    obtain ⟨place, hplace, hsome⟩ :=
      hcontained.exists_starter hmatched hfirst hline (hout (Option.ne_none_iff_exists'.2 ⟨l, hline⟩))
    obtain ⟨l', hl'⟩ := Option.isSome_iff_exists.1 hsome
    have hne : f.replacement.filterMap (f.startedLine? b) ≠ [] :=
      List.ne_nil_of_mem (List.mem_filterMap.2 ⟨place, hplace, hl'⟩)
    obtain ⟨last, hlast, heq⟩ := List.mem_filterMap.1 (List.getLast_mem hne)
    have hsame := hstarts last hlast _ heq
    rw [hline] at hsame
    rw [lineBehind, List.getLast?_eq_some_getLast hne, ← Option.some.inj hsame]

end Firing

/-! ### Owned lines after a pass -/

namespace Rewritten

variable {b b' : Body} {fs : List Firing} {f : Firing} {id key place : Handle}
  (h : Rewritten b fs b')

include h

/-- An instruction that was not live keeps its place on the way to a holder. -/
theorem holder?_of_dead (hthieves : b.pool.ThievesKnown) (hlt : key < b.pool.size)
    (hkey : key ∉ b.instrs) :
    b'.holder? key = some place ↔ ∃ id, b.holder? key = some id ∧ b'.holder? id = some place := by
  have hdead : ∀ {k : Handle}, k < b.pool.size → k ∉ b.instrs → k ∉ b'.instrs :=
    fun hlt hnot hmem => hnot (h.mem_of_lt hlt hmem)
  simp only [Body.holder?_eq_some]
  constructor
  · intro hholds
    -- The chain is followed up to the first instruction that was live.
    induction hholds with
    | here haccept => exact absurd (of_decide_eq_true haccept) (hdead hlt hkey)
    | @behind key next place hnot hnext hrest ih =>
      rw [h.stolenBy_of_dead hlt hkey] at hnext
      by_cases hmem : next ∈ b.instrs
      · exact ⟨next, .behind (decide_eq_false hkey) hnext (.here (decide_eq_true hmem)), hrest⟩
      · obtain ⟨id, hid, hplace⟩ := ih (hthieves _ _ hnext) hmem
        exact ⟨id, .behind (decide_eq_false hkey) hnext hid, hplace⟩
  · rintro ⟨id, hid, hplace⟩
    induction hid with
    | here haccept => exact absurd (of_decide_eq_true haccept) hkey
    | @behind key next id hnot hnext hrest ih =>
      have hnext' : b'.pool.stolenBy key = some next := by rw [h.stolenBy_of_dead hlt hkey, hnext]
      refine .behind (decide_eq_false (hdead hlt hkey)) hnext' ?_
      by_cases hmem : next ∈ b.instrs
      · rwa [hrest.eq_of_accepted (decide_eq_true hmem)] at hplace
      · exact ih (hthieves _ _ hnext) hmem hplace

/-- The line of an instruction of a run goes where the firing passes it on to. -/
theorem holder?_of_matched (hf : f ∈ fs) (hid : id ∈ f.matched) (howned : b.ownedLine? id ≠ none) :
    b'.holder? id = f.passesTo? b id := by
  have hlive : ∀ {x}, x ∈ f.replacement → x ∈ b'.instrs := fun hx => (h.mem _).2 (.inr ⟨f, hf, hx⟩)
  by_cases hkept : id ∈ f.replacement
  · rw [Body.holder?_of_mem (hlive hkept), Firing.passesTo?, if_pos hkept]
  · have hdead : id ∉ b'.instrs := fun hmem => hkept (h.kept hf hid hmem)
    -- The thief of a dropped instruction is live, so the way to the holder is one link long.
    have hstolen := h.stolenBy_of_dropped hf hid hkept
    rw [Firing.passesTo?, if_neg hkept]
    refine Option.ext fun place => ?_
    rw [Body.holder?_eq_some]
    constructor
    · intro hholds
      cases hholds with
      | here haccept => exact absurd (of_decide_eq_true haccept) hdead
      | @behind _ next _ _ hnext hrest =>
        rw [hstolen] at hnext
        have hmem := (h.contained f hf).passed id hid hkept howned next hnext
        rwa [hrest.eq_of_accepted (decide_eq_true (hlive hmem))]
    · intro hthief
      have hmem := (h.contained f hf).passed id hid hkept howned place hthief
      exact .behind (decide_eq_false hdead) (hstolen.trans hthief)
        (.here (decide_eq_true (hlive hmem)))

/-- The line of an entry counts for what has become of its holder. -/
theorem holder?_iff (hb : b.Closed) (hline : b.lines.get? key ≠ none) :
    b'.holder? key = some place ↔ ∃ id, b.holder? key = some id ∧ b'.holder? id = some place := by
  by_cases hkey : key ∈ b.instrs
  · rw [Body.holder?_of_mem hkey]
    simp
  · exact h.holder?_of_dead hb.thieves (hb.lt_size hline) hkey

/-- Dead instructions have no entries but those that they had. -/
theorem lines_of_dead (hkey : key ∉ b'.instrs) : b'.lines.get? key = b.lines.get? key :=
  h.lines_of_not_placed fun f hf hmem => hkey ((h.mem key).2 (.inr ⟨f, hf, hmem⟩))

/-- An instruction that starts a line is copied, or a firing passes its line on. -/
theorem copied_or_passed (hid : id ∈ b.instrs) (howned : b.ownedLine? id ≠ none)
    (hholder : b'.holder? id = some place) :
    (id = place ∧ ∀ f ∈ fs, id ∉ f.matched) ∨
      ∃ f ∈ fs, id ∈ f.matched ∧ place ∈ f.replacement ∧ f.passesTo? b id = some place := by
  by_cases hrun : ∀ f ∈ fs, id ∉ f.matched
  · rw [Body.holder?_of_mem ((h.mem id).2 (.inl ⟨hid, hrun⟩))] at hholder
    exact .inl ⟨Option.some.inj hholder, hrun⟩
  · simp only [not_forall, not_not] at hrun
    obtain ⟨f, hf, hrun⟩ := hrun
    rw [h.holder?_of_matched hf hrun howned] at hholder
    exact .inr ⟨f, hf, hrun, (h.contained f hf).mem_of_passesTo? hrun howned hholder, hholder⟩

/-- **Copied instructions.** They start the lines that they started before. -/
theorem ownedLine?_copied (hb : b.Closed) (hid : id ∈ b.instrs)
    (hcopied : ∀ f ∈ fs, id ∉ f.matched) : b'.ownedLine? id = b.ownedLine? id := by
  have hlive : id ∈ b'.instrs := (h.mem id).2 (.inl ⟨hid, hcopied⟩)
  have hplace : ∀ f ∈ fs, id ∉ f.replacement := fun f hf =>
    h.not_mem_replacement hid hcopied hf
  rw [Body.ownedLine?, Body.ownedLine?, h.lines_of_not_placed hplace]
  congr 2
  refine LineMap.find?_congr fun key line => ?_
  rw [Body.leavesTo_iff_holder?, Body.leavesTo_iff_holder?]
  constructor
  · rintro ⟨hline, hdead, hholder⟩
    rw [h.lines_of_dead hdead] at hline
    have hentry : b.lines.get? key ≠ none := Option.ne_none_iff_exists'.2 ⟨line, hline⟩
    obtain ⟨old, hold, hnew⟩ := (h.holder?_iff hb hentry).1 hholder
    -- The holder was copied, since what takes the place of a run is not `id`.
    obtain ⟨rfl, -⟩ | ⟨f, hf, -, hplaced, -⟩ := h.copied_or_passed (Body.mem_of_holder? hold)
      (Body.ownedLine?_ne_none hold hentry) hnew
    · refine ⟨hline, fun hkey => ?_, hold⟩
      rw [Body.holder?_of_mem hkey] at hold
      cases hold
      exact hdead hlive
    · exact absurd hplaced (hplace f hf)
  · rintro ⟨hline, hdead, hholder⟩
    have hentry : b.lines.get? key ≠ none := Option.ne_none_iff_exists'.2 ⟨line, hline⟩
    have hdead' : key ∉ b'.instrs := fun hmem => hdead (h.mem_of_lt (hb.lt_size hentry) hmem)
    exact ⟨by rw [h.lines_of_dead hdead', hline], hdead',
      (h.holder?_iff hb hentry).2 ⟨id, hholder, Body.holder?_of_mem hlive⟩⟩

/-- **Replacements.** They start the lines that the firing says. -/
theorem ownedLine?_placed (hb : b.Closed) (hf : f ∈ fs) (hplace : place ∈ f.replacement) :
    b'.ownedLine? place = f.startedLine? b place := by
  rw [Body.ownedLine?, h.lines_of_placed hf hplace, Firing.startedLine?]
  cases hfirst : (b.lines.get? place).or (f.carried? b place) with
  | some line => rfl
  | none =>
    congr 2
    refine LineMap.find?_congr fun key line => ?_
    rw [Body.leavesTo_iff_holder?, Firing.brings_eq_true]
    constructor
    · rintro ⟨hline, hdead, hholder⟩
      rw [h.lines_of_dead hdead] at hline
      have hentry : b.lines.get? key ≠ none := Option.ne_none_iff_exists'.2 ⟨line, hline⟩
      obtain ⟨id, hid, hnew⟩ := (h.holder?_iff hb hentry).1 hholder
      have hmem := Body.mem_of_holder? hid
      -- The holder was in the run: had it been copied, it would be `place`.
      obtain ⟨rfl, hcopied⟩ | ⟨g, hg, hrun, hplace', hpass⟩ :=
        h.copied_or_passed hmem (Body.ownedLine?_ne_none hid hentry) hnew
      · exact absurd hplace (h.not_mem_replacement hmem hcopied hf)
      · rw [← h.replacement_apart f hf g hg place hplace hplace'] at hrun hpass
        exact ⟨hline, id, hid, hrun, hpass⟩
    · rintro ⟨hline, id, hid, hrun, hpass⟩
      have hentry : b.lines.get? key ≠ none := Option.ne_none_iff_exists'.2 ⟨line, hline⟩
      have hnew := (h.holder?_of_matched hf hrun (Body.ownedLine?_ne_none hid hentry)).trans hpass
      have hholder := (h.holder?_iff hb hentry).2 ⟨id, hid, hnew⟩
      have hdead : key ∉ b'.instrs := by
        intro hkey
        rw [Body.holder?_of_mem hkey] at hholder
        cases hholder
        exact hentry (Option.or_eq_none_iff.1 hfirst).1
      exact ⟨by rw [h.lines_of_dead hdead, hline], hdead, hholder⟩

end Rewritten

/-! ### Scans -/

variable {σ : Type} {inner : NestedTransform σ} {rules : RuleSet σ}

/-- No copied instruction among `ids` starts a line. -/
def Firing.Unstarted (b : Body) (fs : List Firing) (ids : List Handle) : Prop :=
  ∀ x ∈ ids, (∀ f ∈ fs, x ∉ f.matched) → b.ownedLine? x = none

namespace Firing.Unstarted

variable {b : Body} {fs : List Firing} {f : Firing} {id : Handle} {ids : List Handle}

/-- Nothing starts nowhere. -/
theorem nil : Unstarted b fs [] := fun _ hx => absurd hx List.not_mem_nil

/-- One more instruction that starts no line changes nothing. -/
theorem cons (h : Unstarted b fs ids) (hid : b.ownedLine? id = none) : Unstarted b fs (id :: ids) :=
  List.forall_mem_cons.2 ⟨fun _ => hid, h⟩

/-- One more run takes instructions away, and those in it do not count. -/
theorem append_matched (h : Unstarted b fs ids) : Unstarted b (f :: fs) (f.matched ++ ids) := by
  intro x hx hcopied
  obtain ⟨hnot, hcopied⟩ := List.forall_mem_cons.1 hcopied
  exact h x ((List.mem_append.1 hx).resolve_left hnot) hcopied

/-- One more firing leaves fewer instructions to be copied. -/
theorem cons_firing (h : Unstarted b fs ids) : Unstarted b (f :: fs) ids := fun x hx =>
  h.append_matched x (List.mem_append_right _ hx)

end Firing.Unstarted

/-- A run that does not hold `id` stands before it. -/
theorem exists_behind_run {run rest before behind : List Handle} {id : Handle}
    (h : run ++ rest = before ++ id :: behind) (hid : id ∉ run) :
    ∃ behindRun, before = run ++ behindRun ∧ rest = behindRun ++ id :: behind := by
  rcases List.append_eq_append_iff.1 h with ⟨as, hbefore, hrest⟩ | ⟨bs, hrun, hbehind⟩
  · exact ⟨as, hbefore, hrest⟩
  · cases bs with
    | nil => exact ⟨[], by simpa using hrun.symm, hbehind.symm⟩
    | cons y bs =>
      obtain ⟨rfl, -⟩ := List.cons.inj hbehind
      exact absurd (hrun ▸ List.mem_append_right _ List.mem_cons_self) hid

/-- **Lines behind a scan.** Let copied instructions start the lines that they started before, and
    let what takes the place of a run start what the firing says.  If both sequences start in the
    same line, or some copied instruction up to `id` starts one, then the copied instruction `id` is
    on the same line, as long as firings keep the line in effect from which no copied start
    separates it. -/
theorem Pass.Scans.lineBehind_eq {b : Body} {owned' : Handle → Option UInt32}
    {code : List (Handle × Opcode)} {p q : Pass σ} {fs : List Firing} {out : List Handle}
    (h : Scans rules inner code p fs out q) (hdistinct : (code.map (·.1)).Nodup)
    (hcopied : ∀ x ∈ code.map (·.1), (∀ f ∈ fs, x ∉ f.matched) → owned' x = b.ownedLine? x)
    (hplaced : ∀ f ∈ fs, ∀ x ∈ f.replacement, owned' x = f.startedLine? b x)
    {before behind : List Handle} {id : Handle} (hcode : code.map (·.1) = before ++ id :: behind)
    (hid : ∀ f ∈ fs, id ∉ f.matched) {line line' : UInt32}
    (hline : Firing.Unstarted b fs (before ++ [id]) → line = line')
    (hkeep : ∀ f ∈ fs, ∀ u v, before = u ++ f.matched ++ v → Firing.Unstarted b fs (v ++ [id]) →
      f.KeepsLine b (lineBehind b.ownedLine? line u)) :
    ∃ before' behind', out = before' ++ id :: behind' ∧
      lineBehind owned' line' (before' ++ [id]) =
        lineBehind b.ownedLine? line (before ++ [id]) := by
  induction h generalizing before line line' with
  | nil => simp at hcode
  | @keep head o rest p q fs out hmatch hrest ih =>
    obtain ⟨hhead, hdistinct⟩ := List.nodup_cons.1 hdistinct
    have hsame := hcopied head List.mem_cons_self fun f hf hmem =>
      hhead (hrest.matched_subset f hf hmem)
    -- Behind a copied instruction both sequences are on the line it starts.
    have hstep : ∀ ids, (Firing.Unstarted b fs (head :: ids) → line = line') →
        Firing.Unstarted b fs ids →
        (b.ownedLine? head).getD line = (owned' head).getD line' := by
      intro ids hids hnone
      rw [hsame]
      cases howned : b.ownedLine? head with
      | some here => rfl
      | none => exact hids (hnone.cons howned)
    cases before with
    | nil =>
      obtain ⟨rfl, -⟩ := List.cons.inj hcode
      refine ⟨[], out, rfl, ?_⟩
      rw [List.nil_append, lineBehind_cons, lineBehind_cons]
      exact (hstep [] hline .nil).symm
    | cons x before =>
      obtain ⟨rfl, hbehind⟩ := List.cons.inj hcode
      obtain ⟨before', behind', rfl, heq⟩ := ih hdistinct
        (fun x hx => hcopied x (List.mem_cons_of_mem _ hx)) hplaced hbehind hid
        (hstep (before ++ [id]) hline) fun f hf u v hsplit hnone => by
          have hkept := hkeep f hf (head :: u) v (by rw [hsplit]; simp) hnone
          rwa [lineBehind_cons] at hkept
      refine ⟨head :: before', behind', rfl, ?_⟩
      rw [List.cons_append, List.cons_append, lineBehind_cons, lineBehind_cons, heq]
  | @fire head o rest p p' q fs out matched replacement rule length hmatch hmatched hrun hrest ih =>
    rw [source_eq hmatched] at hdistinct hcode hcopied
    obtain ⟨-, hrestdistinct, hapart⟩ := List.nodup_append.1 hdistinct
    generalize hfiring : Firing.mk matched replacement ((rule.handler matched).deeds inner p) = f
      at *
    obtain rfl : f.matched = matched := by rw [← hfiring]
    obtain rfl : f.replacement = replacement := by rw [← hfiring]
    obtain ⟨hidf, hid⟩ := List.forall_mem_cons.1 hid
    obtain ⟨hplacedf, hplaced⟩ := List.forall_mem_cons.1 hplaced
    obtain ⟨behindRun, rfl, hbehind⟩ := exists_behind_run hcode hidf
    have hcopied' : ∀ x ∈ (rest.drop (length - 1)).map (·.1), (∀ g ∈ fs, x ∉ g.matched) →
        owned' x = b.ownedLine? x := fun x hx hx' =>
      hcopied x (List.mem_append_right _ hx)
        (List.forall_mem_cons.2 ⟨fun hmem => hapart x hmem x hx rfl, hx'⟩)
    -- Where no copied start comes behind the run, the firing keeps the line.
    have hline' : Firing.Unstarted b fs (behindRun ++ [id]) →
        lineBehind b.ownedLine? line f.matched = lineBehind owned' line' f.replacement := by
      intro hnone
      have hkept := hkeep f List.mem_cons_self [] behindRun rfl hnone.cons_firing
      have hsame : line = line' := hline (by rw [List.append_assoc]; exact hnone.append_matched)
      rw [Firing.KeepsLine, lineBehind_nil, hsame] at hkept
      rw [lineBehind_congr hplacedf, hkept, hsame]
    obtain ⟨before', behind', rfl, heq⟩ := ih hrestdistinct hcopied' hplaced hbehind hid hline'
      fun g hg u v hsplit hnone => by
        have hkept := hkeep g (List.mem_cons_of_mem _ hg) (f.matched ++ u) v
          (by rw [hsplit]; simp) hnone.cons_firing
        rwa [lineBehind_append] at hkept
    refine ⟨f.replacement ++ before', behind', by simp, ?_⟩
    rw [List.append_assoc, List.append_assoc, lineBehind_append (before' ++ [id]), heq,
      ← lineBehind_append]

/-! ### Passes -/

namespace Transform

variable {options : TransformOptions} {c c' : Routine} {o : Overrides} {world world' : World σ}
  {e e' : Encoding} {raw raw' : StoredUnit}

/-- A pass that succeeds scans the instructions of the routine, and rewrites the routine by its
    firings.  The result is closed again. -/
theorem rewritten_of_pass (hc : c.Closed)
    (hrules : ∀ rule ∈ rules.rules, ∀ matched, (rule.handler matched).NeverSetsLine)
    (h : (pass rules options inner c o).run world = .ok c' world')
    (hfs : ∀ f ∈ firings rules options inner c world, f.Contained c.toBody c'.instrs) :
    Rewritten c.toBody (firings rules options inner c world) c'.toBody ∧ c'.Closed ∧
      c'.firstlineno = c.firstlineno ∧ ∃ code p q, code.map (·.1) = c.instrs ∧
        Pass.Scans rules inner code p (firings rules options inner c world) c'.instrs q := by
  obtain ⟨p, out, q, hnests, hscan, hdraft, -⟩ := pass_eq_ok.1 h
  have hfirings : firings rules options inner c world = Pass.firings rules inner p.scanned p := by
    rw [firings, hnests.run_eq_ok]
  rw [hfirings] at hfs ⊢
  have hscans := Pass.scans_of_run hscan
  generalize Pass.firings rules inner p.scanned p = fs at *
  -- The phase of nested units changes nothing but the units that instructions load.
  obtain ⟨g, -, -, hp⟩ := hnests.exists_map hc.sound.distinct
  have hpool : p.draft.pool = c.pool.mapUnitsIn g c.instrs := by rw [hp]; rfl
  have hlines : p.draft.lines = c.lines := by rw [hp]; rfl
  have hconsistent : p.draft.pool.Consistent := hpool ▸ hc.consistent.mapUnitsIn
  have hsize : p.draft.pool.size = c.pool.size := by rw [hpool, Pool.size_mapUnitsIn]
  have hstolen : ∀ id, p.draft.pool.stolenBy id = c.pool.stolenBy id := fun id => by
    rw [hpool, Pool.stolenBy_mapUnitsIn]
  have hsource : p.scanned.map (·.1) = c.instrs := by
    have hstart : (start options c world).draft.toBody.Sound :=
      ⟨hc.sound.known, hc.sound.distinct, hc.sound.fits, hc.sound.declared⟩
    rw [hnests.scanned_eq, Pass.scanned, List.map_map]
    exact Body.map_fst_code hstart
  -- The result is the draft that the scan leaves, with new names.
  obtain ⟨_, hcheck, hresult⟩ := bind_eq_ok.1 hdraft
  have hout : out.Nodup := (Body.check_eq_ok.1 hcheck).1
  have hinstrs : c'.instrs = out := by cases hresult; rfl
  have hlines' : c'.lines = q.draft.lines := by cases hresult; rfl
  have hpool' : c'.pool = q.draft.pool := by cases hresult; rfl
  have hfirst : c'.firstlineno = q.draft.firstlineno := by cases hresult; rfl
  subst hinstrs
  have hrewritten : Rewritten c.toBody fs c'.toBody :=
    hscans.rewritten hrules hconsistent.notes hsize hlines hstolen hsource hc.sound.distinct
      (Body.lt_size_of_sound hc.sound) hfs hout hlines' hpool'
  refine ⟨hrewritten, ?_, ?_, p.scanned, p, q, hsource, hscans⟩
  · have hdeeds := hscans.deeds
    have hfits : ∀ id i, .emitted id i ∈ fs.flatMap (·.deeds) →
        i.operand.fits i.opcode.operandClass = true := by
      intro id i hi
      obtain ⟨f, hf, hi⟩ := List.mem_flatMap.1 hi
      exact (hfs f hf).fits id i hi
    have hafter : q.draft.pool.Consistent := hconsistent.deeds hdeeds hfits
    have hknown : p.draft.pool.ThievesKnown := fun id thief hthief => by
      rw [hsize]
      exact hc.thieves id thief (hstolen id ▸ hthief)
    have hsound' : c'.Sound := Routine.sound_of_ofDraft? hdraft fun entry hentry =>
      hafter.fits entry.1 entry.2 (Body.mem_code.1 hentry).2
    refine ⟨hsound', hpool' ▸ hafter, hpool' ▸ hknown.deeds hconsistent hdeeds hfits,
      fun entry hentry => ?_⟩
    have hline : c'.lines.get? entry.1 ≠ none :=
      Option.ne_none_iff_exists'.2 ⟨entry.2, LineMap.mem_entries.1 hentry⟩
    rcases hrewritten.mem_of_line hline with hold | hlive
    · have hgrow : c.pool.size ≤ c'.pool.size := by
        rw [hpool', ← hsize]
        exact hdeeds.size_le hconsistent.notes
      exact Nat.lt_of_lt_of_le (hc.lt_size hold) hgrow
    · exact Body.lt_size_of_sound hsound' entry.1 hlive
  · rw [hfirst, hscans.draft_eq, hp]
    rfl

/-- **Lines through a pass.** Let the handlers of a pass set no lines, and let its firings take
    nothing over from other code.  Then an instruction of the source for which no rule fires is in
    the result, and the line tables of both give it the same line, as long as firings before it
    keep the line in effect.  Only those firings count from which no copied instruction that starts
    a line separates it, the instruction itself included. -/
theorem lines_of_pass (hc : c.Closed)
    (hrules : ∀ rule ∈ rules.rules, ∀ matched, (rule.handler matched).NeverSetsLine)
    (h : (pass rules options inner c o).run world = .ok c' world')
    (hfs : ∀ f ∈ firings rules options inner c world, f.Contained c.toBody c'.instrs)
    (hstore : c.store? { encoding := some e } = .ok raw)
    (hstore' : c'.store? { encoding := some e' } = .ok raw') :
    ∃ starts starts',
      LineTable.decode raw.lineTable raw.firstlineno e.lineFormat = .ok starts ∧
      LineTable.decode raw'.lineTable raw'.firstlineno e'.lineFormat = .ok starts' ∧
      ∀ before id behind, c.instrs = before ++ id :: behind →
        (∀ f ∈ firings rules options inner c world, id ∉ f.matched) →
        (∀ f ∈ firings rules options inner c world, ∀ u v, before = u ++ f.matched ++ v →
          (∀ x ∈ v ++ [id], (∀ g ∈ firings rules options inner c world, x ∉ g.matched) →
            c.ownedLine? x = none) →
          f.KeepsLine c.toBody (lineBehind c.ownedLine? c.firstlineno u)) →
        id ∈ c'.instrs ∧ ∃ line,
          (Body.offsetOf? (c.layout e) id).bind (LineTable.lineAt starts) = some line ∧
          (Body.offsetOf? (c'.layout e') id).bind (LineTable.lineAt starts') = some line := by
  obtain ⟨hrewritten, hclosed', hfirst, code, p, q, hcode, hscans⟩ :=
    rewritten_of_pass hc hrules h hfs
  obtain ⟨starts, hdecode, hlines⟩ := Routine.lineAt_of_store hc.sound hstore
  obtain ⟨starts', hdecode', hlines'⟩ := Routine.lineAt_of_store hclosed'.sound hstore'
  refine ⟨starts, starts', hdecode, hdecode', fun before id behind hinstrs hid hkeep => ?_⟩
  have hdistinct : (code.map (·.1)).Nodup := hcode ▸ hc.sound.distinct
  -- What is copied starts the same lines as before, and what takes the place of a run starts what
  -- the firing says.
  have hcopied : ∀ x ∈ code.map (·.1),
      (∀ f ∈ firings rules options inner c world, x ∉ f.matched) →
      c'.ownedLine? x = c.ownedLine? x :=
    fun x hx hcopied => hrewritten.ownedLine?_copied hc (hcode ▸ hx) hcopied
  obtain ⟨before', behind', hout, hbehind⟩ := hscans.lineBehind_eq hdistinct hcopied
    (fun f hf x hx => hrewritten.ownedLine?_placed hc hf hx) (hcode.trans hinstrs) hid
    (fun _ => rfl) hkeep
  refine ⟨by rw [hout]; exact List.mem_append_right _ List.mem_cons_self, _,
    hlines before id behind hinstrs, ?_⟩
  rw [hlines' before' id behind' hout, hfirst, hbehind]

/-- A routine with a line for each of its instructions. -/
def stepping : Routine where
  pool := Pool.afterCalls {} [.insertMany [(.loadConst, .const .none), (.nop, .none),
    (.returnValue, .none), (.nop, .none)]]
  instrs := [0, 1, 2]
  lines := .ofList [(0, 1), (1, 2)]
  flags := .ofList [.optimized, .newLocals, .noFree]

/-- The stepping routine refers to its own instructions only. -/
theorem closed_stepping : stepping.Closed where
  sound := by decide +kernel
  consistent := Pool.consistent_afterCalls _
  thieves := Pool.thievesKnown_afterCalls _
  lines := by decide +kernel

/-- The middle instruction is replaced, and the one behind it stays on its line under both
    encodings. -/
theorem lines_of_pass_stepping :
    ∃ c' world' raw raw' starts starts',
      (pass Transformer.replaceNop.rules {} (unit {} {} 0) stepping {}).run { state := [] } =
        .ok c' world' ∧ c'.instrs = [0, 4, 5, 2] ∧
      stepping.store? { encoding := some .wordcode } = .ok raw ∧
      c'.store? { encoding := some .legacy } = .ok raw' ∧
      LineTable.decode raw.lineTable raw.firstlineno Encoding.wordcode.lineFormat = .ok starts ∧
      LineTable.decode raw'.lineTable raw'.firstlineno Encoding.legacy.lineFormat = .ok starts' ∧
      ∃ line,
        (Body.offsetOf? (stepping.layout .wordcode) 2).bind (LineTable.lineAt starts) = some line ∧
        (Body.offsetOf? (c'.layout .legacy) 2).bind (LineTable.lineAt starts') = some line := by
  have hrun : (match (pass Transformer.replaceNop.rules {} (unit {} {} 0) stepping {}).run
      { state := [] } with
    | .ok c' _ => some (c'.instrs, (c'.store? { encoding := some .legacy }).isOk)
    | .error _ _ => none) = some ([0, 4, 5, 2], true) := by decide +kernel
  have hstored : (stepping.store? { encoding := some .wordcode }).isOk = true := by decide +kernel
  -- The only firing replaces the instruction `1` by `4` and `5`, which take its jumps over.
  have hfirings : firings Transformer.replaceNop.rules {} (unit {} {} 0) stepping { state := [] } =
      [⟨[1], [4, 5], [.emitted 4 ⟨.loadConst, .const (.int 2)⟩, .emitted 5 ⟨.popTop, .none⟩,
        .stole 4 1]⟩] := by decide +kernel
  split at hrun
  · rename_i c' world' hpass
    obtain ⟨hinstrs, hstored'⟩ := Prod.mk.inj (Option.some.inj hrun)
    obtain ⟨raw, hstore⟩ := exists_of_isOk hstored
    obtain ⟨raw', hstore'⟩ := exists_of_isOk hstored'
    have hrules : ∀ rule ∈ Transformer.replaceNop.rules.rules, ∀ matched,
        (rule.handler matched).NeverSetsLine := by
      intro rule hrule matched
      rw [List.mem_singleton.1 hrule]
      exact Action.neverSetsLine_script (by simp) {}
    have hcontained : Firing.Contained ⟨[1], [4, 5], [.emitted 4 ⟨.loadConst, .const (.int 2)⟩,
        .emitted 5 ⟨.popTop, .none⟩, .stole 4 1]⟩ stepping.toBody c'.instrs := by
      refine ⟨fun id hid => .inr ?_, fun id i hi => ?_, fun thief victim h => ?_,
        fun id hid _ _ thief h => ?_⟩
      · rcases List.mem_pair.1 hid with rfl | rfl
        · exact ⟨_, List.mem_cons_self⟩
        · exact ⟨_, List.mem_cons_of_mem _ List.mem_cons_self⟩
      · have hmade : i = ⟨.loadConst, .const (.int 2)⟩ ∨ i = ⟨.popTop, .none⟩ := by
          rcases (by simpa using hi : _ ∨ _) with h | h
          · exact .inl h.2
          · exact .inr h.2
        rcases hmade with rfl | rfl
        · rfl
        · rfl
      · have hvictim : thief = 4 ∧ victim = 1 := by simpa using h
        rw [hvictim.2]
        exact .inl List.mem_cons_self
      · rw [List.mem_singleton.1 hid] at h
        cases h
        decide
    -- In the routine as it starts, nobody has taken over from anybody.
    have hall : ∀ id < stepping.pool.size, stepping.pool.stolenBy id = none := by decide +kernel
    have hstolen : ∀ id, stepping.pool.stolenBy id = none := by
      refine fun id => Option.eq_none_iff_forall_not_mem.2 fun thief hthief => ?_
      rw [hall id (Pool.lt_size_of_stolenBy hthief)] at hthief
      cases hthief
    obtain ⟨starts, starts', hdecode, hdecode', hlines⟩ :=
      lines_of_pass closed_stepping hrules hpass
        (by rw [hfirings, List.forall_mem_singleton]; exact hcontained) hstore hstore'
    obtain ⟨-, line, hline, hline'⟩ := hlines [0, 1] 2 [] rfl
      (by rw [hfirings, List.forall_mem_singleton]; decide) fun f hf u v _ _ => by
        rw [hfirings, List.mem_singleton] at hf
        subst hf
        exact Firing.keepsLine_of_first hcontained rfl (by decide) hstolen (by decide +kernel)
          (List.forall_mem_nil _) (fun _ => List.cons_ne_nil _ _) _
    exact ⟨c', world', raw, raw', starts, starts', hpass, hinstrs, hstore, hstore', hdecode,
      hdecode', line, hline, hline'⟩
  · cases hrun

/-- A rule that drops instructions without effect, and puts nothing in their place. -/
def dropNop : RuleSet (List Visit) where
  rules := [.single "nop" .nop [{}] (Action.handler [])]

/-- **Lost lines.** The instruction behind a run that starts a line is on another line when nothing
    takes the place of the run. -/
theorem line_shortened :
    (∀ rule ∈ dropNop.rules, ∀ matched, (rule.handler matched).NeverSetsLine) ∧
    firings dropNop {} (unit {} {} 0) stepping { state := [] } = [⟨[1], [], []⟩] ∧
    ∃ c' world' raw raw' starts starts',
      (pass dropNop {} (unit {} {} 0) stepping {}).run { state := [] } = .ok c' world' ∧
      stepping.store? { encoding := some .wordcode } = .ok raw ∧
      c'.store? { encoding := some .wordcode } = .ok raw' ∧
      LineTable.decode raw.lineTable raw.firstlineno Encoding.wordcode.lineFormat = .ok starts ∧
      LineTable.decode raw'.lineTable raw'.firstlineno Encoding.wordcode.lineFormat = .ok starts' ∧
      stepping.instrs = [0, 1, 2] ∧ c'.instrs = [0, 2] ∧
      (Body.offsetOf? (stepping.layout .wordcode) 2).bind (LineTable.lineAt starts) = some 2 ∧
      (Body.offsetOf? (c'.layout .wordcode) 2).bind (LineTable.lineAt starts') = some 1 := by
  refine ⟨fun rule hrule matched => ?_, by decide +kernel, ?_⟩
  · rw [List.mem_singleton.1 hrule]
    trivial
  · -- All that the statement is about is computed in one run.
    have hrun : (match (pass dropNop {} (unit {} {} 0) stepping {}).run { state := [] } with
      | .ok c' _ =>
        (stepping.store? { encoding := some .wordcode }).toOption.bind fun raw =>
        (c'.store? { encoding := some .wordcode }).toOption.bind fun raw' =>
        (LineTable.decode raw.lineTable raw.firstlineno
          Encoding.wordcode.lineFormat).toOption.bind fun starts =>
        (LineTable.decode raw'.lineTable raw'.firstlineno
          Encoding.wordcode.lineFormat).toOption.map fun starts' =>
        (c'.instrs, (Body.offsetOf? (stepping.layout .wordcode) 2).bind (LineTable.lineAt starts),
          (Body.offsetOf? (c'.layout .wordcode) 2).bind (LineTable.lineAt starts'))
      | .error _ _ => none) = some ([0, 2], some 2, some 1) := by decide +kernel
    split at hrun
    · rename_i c' world' hpass
      obtain ⟨raw, hstore, hrun⟩ := Option.bind_eq_some_iff.1 hrun
      obtain ⟨raw', hstore', hrun⟩ := Option.bind_eq_some_iff.1 hrun
      obtain ⟨starts, hdecode, hrun⟩ := Option.bind_eq_some_iff.1 hrun
      obtain ⟨starts', hdecode', hlines⟩ := Option.map_eq_some_iff.1 hrun
      simp only [Prod.mk.injEq] at hlines
      exact ⟨c', world', raw, raw', starts, starts', hpass, eq_ok_of_toOption hstore,
        eq_ok_of_toOption hstore', eq_ok_of_toOption hdecode, eq_ok_of_toOption hdecode', rfl,
        hlines⟩
    · cases hrun

end Transform

end StackCode

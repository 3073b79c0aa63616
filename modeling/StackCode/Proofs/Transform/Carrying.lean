import StackCode.Proofs.Pool.Thieves
import StackCode.Proofs.Routine.LineQuery
import StackCode.Proofs.Transform.Partition

namespace StackCode

/-!
# Lines and thieves behind a scan

Lines and thieves after a scan depend on all of its firings.  Runs do not overlap, and what takes
their place does not either; so when firings are contained, what becomes of an instruction of the
source that is dropped is told by the one firing that dropped it.

What the firings of a scan make of the lines of a unit, when no handler sets a line.

* `Script.NeverSetsLine` — a script that leaves the lines alone; `Script.stolenBy_of_run` says who
  takes over from whom.
* `Firing.thief?`, `Firing.carried?` — who takes over from an instruction of the run, and the line
  that is carried on to the first instruction in its place.
* `Firing.Contained` — a firing that takes nothing over from other code.
* `Rewritten` — a body after some firings; `Pass.Scans.rewritten` says that a scan leads to it.
-/

open Pool (Deed Deeds lastThief?)

variable {σ : Type} {inner : NestedTransform σ}

/-! ### Scripts -/

namespace Script

/-- Whatever the operations result in, no line is set. -/
def NeverSetsLine : Script σ → Prop
  | .done _ => True
  | .fail _ => True
  | .look k => ∀ v, (k v).NeverSetsLine
  | .emit _ k => ∀ r, (k r).NeverSetsLine
  | .steal _ _ k => ∀ r, (k r).NeverSetsLine
  | .setLine _ _ _ => False
  | .begin _ k => k.NeverSetsLine
  | .setState _ k => k.NeverSetsLine
  | .nested _ k => ∀ r, (k r).NeverSetsLine

/-- Actions on the pool leave the lines alone. -/
theorem lines_onPool {α : Type} (act : PoolM α) (p : Pass σ) :
    (p.onPool act).2.draft.lines = p.draft.lines := by
  unfold Pass.onPool
  split <;> rfl

/-- A script that sets no lines leaves them as they were. -/
theorem lines_of_run {s : Script σ} {p q : Pass σ} {out : List Handle} (hs : s.NeverSetsLine)
    (h : s.run inner p = .ok out q) : q.draft.lines = p.draft.lines := by
  induction s generalizing p with
  | done ids =>
    cases h
    rfl
  | fail e => cases h
  | look k ih => exact ih _ (hs _) h
  | emit i k ih => exact (ih _ (hs _) h).trans (lines_onPool _ p)
  | steal thief victim k ih => exact (ih _ (hs _) h).trans (lines_onPool _ p)
  | setLine id line k ih => exact hs.elim
  | begin m k ih =>
    exact ih (p := { p with world := { p.world with modes := p.world.modes.begin m } }) hs h
  | setState state k ih =>
    exact ih (p := { p with world := { p.world with state := state } }) hs h
  | nested unit k ih =>
    have hrest := ih (p.onWorld (inner unit p.draft.encoding)).1
      (p := (p.onWorld (inner unit p.draft.encoding)).2) (hs _) h
    rwa [draft_onWorld] at hrest

/-- Storing takes nothing over. -/
theorem stolenBy_emitting (p : Pass σ) (i : Instr) (id : Handle) :
    (p.onPool (Pool.insert i)).2.draft.pool.stolenBy id = p.draft.pool.stolenBy id := by
  unfold Pass.onPool
  rcases Pool.run_insert p.draft.pool i with ⟨e, hrun⟩ | ⟨new, q, hrun, hdeed⟩
  · rw [hrun]
  · rw [hrun]
    cases hdeed with
    | emitted _ => exact Pool.stolenBy_insert i

/-- Nor does it give anybody a thief. -/
theorem lastThief?_emitting (i : Instr) (r : Except BuildError Handle) (id : Handle) :
    lastThief? (emitting i r) id = none := by
  cases r with
  | ok new => exact Pool.lastThief?_singleton _
  | error e => rfl

/-- A steal that succeeds makes one thief, and one that fails none. -/
theorem stolenBy_stealing {p : Pass σ} (hp : p.draft.pool.AllNoted) (thief victim id : Handle) :
    (p.onPool (Pool.steal thief victim)).2.draft.pool.stolenBy id =
      (lastThief? (stealing thief victim (p.onPool (Pool.steal thief victim)).1) id).or
        (p.draft.pool.stolenBy id) := by
  unfold Pass.onPool
  rcases Pool.run_steal p.draft.pool thief victim with ⟨e, hrun⟩ | ⟨q, hrun, -⟩
  · rw [hrun]
    rfl
  · have hstolen := hp.stolenBy_of_run_steal hrun id
    rw [← Pool.lastThief?_singleton] at hstolen
    rw [hrun]
    exact hstolen

/-- **Thieves of a script.** The last one that took over counts, or the one there was before. -/
theorem stolenBy_of_run {s : Script σ} {p q : Pass σ} {out : List Handle}
    (hp : p.draft.pool.AllNoted) (h : s.run inner p = .ok out q) (id : Handle) :
    q.draft.pool.stolenBy id =
      (lastThief? (s.deeds inner p) id).or (p.draft.pool.stolenBy id) := by
  induction s generalizing p with
  | done ids =>
    cases h
    rfl
  | fail e => cases h
  | look k ih => exact ih _ hp h
  | emit i k ih =>
    -- Storing makes nobody a thief, and the later deeds count from the pool that it leaves.
    have hrest := ih (p.onPool (Pool.insert i)).1 (p := (p.onPool (Pool.insert i)).2)
      ((deeds_emitting p i).allNoted hp) h
    rw [stolenBy_emitting] at hrest
    rw [hrest, deeds, Pool.lastThief?_append, lastThief?_emitting, Option.or_none]
  | steal thief victim k ih =>
    -- A later thief counts before this one, and this one before the thieves of the pool.
    have hrest := ih (p.onPool (Pool.steal thief victim)).1
      (p := (p.onPool (Pool.steal thief victim)).2) ((deeds_stealing p thief victim).allNoted hp) h
    rw [stolenBy_stealing hp, ← Option.or_assoc] at hrest
    rw [hrest, deeds, Pool.lastThief?_append]
  | setLine id line k ih => exact ih hp h
  | begin m k ih => exact ih hp h
  | setState state k ih => exact ih hp h
  | nested unit k ih =>
    have hrest := ih (p.onWorld (inner unit p.draft.encoding)).1
      (p := (p.onWorld (inner unit p.draft.encoding)).2) (by rw [draft_onWorld]; exact hp) h
    rw [draft_onWorld] at hrest
    exact hrest

end Script

/-- Steps of handlers set lines only where they say so. -/
theorem Action.neverSetsLine_script {matched : List Handle} {actions : List Action}
    (h : ∀ r line, .setLine r line ∉ actions) (p : Progress) :
    (script matched p actions).NeverSetsLine := by
  -- A step looks references up, checks the result of an operation and goes on; neither sets a line.
  have hwithRef : ∀ (p : Progress) (r : Ref) (k : Handle → LogScript),
      (∀ id, (k id).NeverSetsLine) → (withRef matched p r k).NeverSetsLine := by
    intro p r k hk
    unfold withRef
    dsimp only
    split
    · exact hk _
    · trivial
  have horFail : ∀ {α : Type} (k : α → LogScript), (∀ a, (k a).NeverSetsLine) →
      ∀ r, (orFail k r).NeverSetsLine := by
    intro α k hk r
    cases r with
    | ok a => exact hk a
    | error e => trivial
  have hemit : ∀ (opcode : Opcode) (operand : Operand) (k : Handle → LogScript),
      (∀ id, (k id).NeverSetsLine) → (emit opcode operand k).NeverSetsLine :=
    fun opcode operand k hk =>
      horFail (fun i => .emit i (orFail k)) (fun _ => horFail k hk) (Instr.new? opcode operand)
  have hwithInstr : ∀ (id : Handle) (k : Instr → LogScript), (∀ i, (k i).NeverSetsLine) →
      (withInstr id k).NeverSetsLine := by
    intro id k hk v
    dsimp only
    split
    · exact hk _
    · trivial
  have hmaking : ∀ (p : Progress) (m : Making) (k : Handle → LogScript),
      (∀ id, (k id).NeverSetsLine) → (making matched p m k).NeverSetsLine := by
    intro p m k hk
    cases m with
    | instr opcode operand => exact hemit _ _ k hk
    | jump opcode target => exact hwithRef _ _ _ fun t => hemit _ _ k hk
    | copy source => exact hwithRef _ _ _ fun id => hwithInstr _ _ fun i => hemit _ _ k hk
    | nested source =>
      refine hwithRef _ _ _ fun id => hwithInstr _ _ fun i => ?_
      split
      · intro r
        cases r with
        | ok result => exact hemit _ _ k hk
        | error e => trivial
      · trivial
  -- Only the step that sets a line does so, and it is not among the steps.
  induction actions generalizing p with
  | nil => trivial
  | cons action rest ih =>
    have hrest := ih fun r line hmem => h r line (List.mem_cons_of_mem _ hmem)
    cases action with
    | keep => exact hrest _
    | put r => exact hwithRef _ _ _ fun id => hrest _
    | make m hide => exact hmaking _ _ _ fun id => hrest _
    | steal thief victim =>
      exact hwithRef _ _ _ fun t => hwithRef _ _ _ fun v => horFail _ fun _ => hrest _
    | setLine r line => exact absurd List.mem_cons_self (h r line)
    | begin m => exact hrest _
    | fail report => trivial
    | log => exact fun v => hrest _

/-! ### Firings -/

namespace Firing

variable {f : Firing} {b b' : Body} {id key : Handle}

/-- Who takes over from an instruction: the last thief of the firing, or one from before. -/
def thief? (f : Firing) (b : Body) (id : Handle) : Option Handle :=
  (lastThief? f.deeds id).or (b.pool.stolenBy id)

/-- The line that is carried on to `key`, the first instruction in place of the run, when the first
    instruction of the run is dropped without a thief. -/
def carried? (f : Firing) (b : Body) (key : Handle) : Option UInt32 :=
  match f.matched, f.replacement with
  | first :: _, head :: _ =>
    if key = head ∧ first ∉ f.replacement ∧ f.thief? b first = none then b.lines.get? first
    else none
  | _, _ => none

/-- A line is carried on to what takes the place of the run. -/
theorem mem_of_carried? {line : UInt32} (h : f.carried? b key = some line) :
    key ∈ f.replacement := by
  unfold carried? at h
  split at h
  · rename_i first rest head others _ hreplacement
    split at h
    · rename_i hkey
      rw [hreplacement, hkey.1]
      exact List.mem_cons_self
    · cases h
  · cases h

/-- Elsewhere no line is carried. -/
theorem carried?_eq_none (h : key ∉ f.replacement) : f.carried? b key = none := by
  refine Option.eq_none_iff_forall_not_mem.2 fun line hline => ?_
  exact h (mem_of_carried? hline)

/-- What is carried depends on the first instruction of the run. -/
theorem carried?_congr (hlines : ∀ id ∈ f.matched, b'.lines.get? id = b.lines.get? id)
    (hthief : ∀ id ∈ f.matched, id ∉ f.replacement → f.thief? b' id = f.thief? b id) :
    f.carried? b' key = f.carried? b key := by
  unfold carried?
  split
  · rename_i first rest head others hmatched hreplacement
    have hfirst : first ∈ f.matched := hmatched ▸ List.mem_cons_self
    rw [hlines first hfirst]
    by_cases hmem : first ∈ f.replacement
    · rw [if_neg fun h => h.2.1 hmem, if_neg fun h => h.2.1 hmem]
    · rw [hthief first hfirst hmem]
  · rfl

/-- When no other firing takes anything over from an instruction, the thief of one firing counts. -/
theorem lastThief?_flatMap {fs : List Firing}
    (hothers : ∀ g ∈ fs, g ≠ f → lastThief? g.deeds id = none) :
    lastThief? (fs.flatMap (·.deeds)) id = if f ∈ fs then lastThief? f.deeds id else none := by
  induction fs with
  | nil => rfl
  | cons g rest ih =>
    obtain ⟨hg, hrest⟩ := List.forall_mem_cons.1 hothers
    rw [List.flatMap_cons, Pool.lastThief?_append, ih hrest]
    by_cases heq : g = f
    · by_cases hmem : f ∈ rest
      · simp [heq, hmem]
      · simp [heq, hmem]
    · simp [hg heq, Ne.symm heq]

/-- What handlers may do without moving the lines of other code.  In place of the run they put
    instructions of the run and new ones.  They take jumps over from instructions of the run, from
    such as are kept anyway, and from new ones.  If a dropped instruction that starts a line has a
    thief in the end, it is one that takes the place of the run. -/
structure Contained (f : Firing) (b : Body) (out : List Handle) : Prop where
  returned : ∀ id ∈ f.replacement, id ∈ f.matched ∨ ∃ i, .emitted id i ∈ f.deeds
  /-- New instructions are such as `Instr.new?` makes. -/
  fits : ∀ id i, .emitted id i ∈ f.deeds → i.operand.fits i.opcode.operandClass = true
  victims : ∀ thief victim, .stole thief victim ∈ f.deeds →
    victim ∈ f.matched ∨ victim ∈ out ∨ b.pool.size ≤ victim
  passed : ∀ id ∈ f.matched, id ∉ f.replacement → b.ownedLine? id ≠ none →
    ∀ thief, f.thief? b id = some thief → thief ∈ f.replacement

end Firing

/-! ### Scans -/

namespace Pass

variable {rules : RuleSet σ} {code : List (Handle × Opcode)} {p q : Pass σ} {fs : List Firing}
  {out : List Handle}

/-- The line of the first instruction of a run, where it is carried on. -/
theorem get?_carryLine {d : Draft} {f : Firing} {b : Body} (hlines : d.lines = b.lines)
    (hthief : ∀ id, d.pool.stolenBy id = f.thief? b id) (key : Handle) :
    (carryLine d f.matched f.replacement).lines.get? key =
      (b.lines.get? key).or (f.carried? b key) := by
  obtain ⟨matched, replacement, ds⟩ := f
  unfold carryLine Firing.carried?
  cases matched with
  | nil => rw [hlines, Option.or_none]
  | cons first rest =>
    cases replacement with
    | nil => rw [hlines, Option.or_none]
    | cons head others =>
      dsimp only
      rw [hthief, hlines]
      by_cases hskip : first ∈ head :: others ∨
          (Firing.thief? ⟨first :: rest, head :: others, ds⟩ b first).isSome = true
      · -- The first instruction is kept or has a thief, so that its line is not carried on.
        rw [if_pos hskip, if_neg, Option.or_none, hlines]
        rintro ⟨-, hmem, hnone⟩
        rcases hskip with h | h
        · exact hmem h
        · rw [hnone] at h
          cases h
      · -- The line goes to the head of the replacement, unless that has a line of its own.
        obtain ⟨hmem, hnone⟩ := not_or.1 hskip
        rw [Option.not_isSome_iff_eq_none] at hnone
        rw [if_neg hskip]
        by_cases hkey : key = head
        · rw [if_pos ⟨hkey, hmem, hnone⟩]
          cases b.lines.get? first with
          | none => rw [hlines, Option.or_none]
          | some line => rw [LineMap.get?_insertNew, if_pos hkey]
        · rw [if_neg fun h => hkey h.1, Option.or_none]
          cases b.lines.get? first with
          | none => rw [hlines]
          | some line => rw [LineMap.get?_insertNew, if_neg hkey, Option.or_none]

/-- A scan does the deeds of its firings, one firing after the other. -/
theorem Scans.deeds (h : Scans rules inner code p fs out q) :
    Deeds p.draft.pool (fs.flatMap (·.deeds)) q.draft.pool := by
  induction h with
  | nil => exact .nil
  | keep _ _ ih => exact ih
  | fire _ _ hrun _ ih =>
    rw [pool_carryLine] at ih
    exact (Script.deeds_of_run hrun).append ih

/-- Behind a scan, the last thief of all its firings counts, or the one there was before. -/
theorem Scans.stolenBy_eq (h : Scans rules inner code p fs out q) (hp : p.draft.pool.AllNoted)
    (id : Handle) : q.draft.pool.stolenBy id =
      (lastThief? (fs.flatMap (·.deeds)) id).or (p.draft.pool.stolenBy id) := by
  induction h with
  | nil => rfl
  | keep _ _ ih => exact ih hp
  | @fire id' o rest p p' q fs out matched replacement rule length hmatch hmatched hrun hrest ih =>
    rw [pool_carryLine] at ih
    rw [ih ((Script.deeds_of_run hrun).allNoted hp), Script.stolenBy_of_run hp hrun,
      List.flatMap_cons, Pool.lastThief?_append, Option.or_assoc]

/-- The runs of a scan are parts of its source. -/
theorem Scans.matched_subset (h : Scans rules inner code p fs out q) :
    ∀ f ∈ fs, f.matched ⊆ code.map (·.1) := by
  induction h with
  | nil => exact List.forall_mem_nil _
  | keep _ _ ih => exact fun f hf id hid => List.mem_cons_of_mem _ (ih f hf hid)
  | @fire id o rest p p' q fs out matched replacement rule length hmatch hmatched hrun hrest ih =>
    refine List.forall_mem_cons.2 ⟨fun x hx => ?_, fun f hf x hx => ?_⟩
    · rw [hmatched] at hx
      exact List.cons_subset_cons _ (List.map_subset _ (List.take_subset _ _)) hx
    · exact List.mem_cons_of_mem _ (List.map_subset _ (List.drop_subset _ _) (ih f hf hx))

/-- What a scan goes over is what it fires for first, and what comes behind. -/
theorem source_eq {id : Handle} {o : Opcode} {rest : List (Handle × Opcode)}
    {matched : List Handle} {length : Nat}
    (hmatched : matched = id :: (rest.take (length - 1)).map (·.1)) :
    ((id, o) :: rest).map (·.1) = matched ++ (rest.drop (length - 1)).map (·.1) := by
  rw [hmatched, List.map_cons, List.cons_append, ← List.map_append, List.take_append_drop]

/-- No instruction is in two runs. -/
theorem Scans.matched_apart (h : Scans rules inner code p fs out q)
    (hdistinct : (code.map (·.1)).Nodup) :
    ∀ f ∈ fs, ∀ g ∈ fs, ∀ id ∈ f.matched, id ∈ g.matched → f = g := by
  induction h with
  | nil => exact List.forall_mem_nil _
  | keep _ _ ih => exact ih (List.nodup_cons.1 hdistinct).2
  | @fire id o rest p p' q fs out matched replacement rule length hmatch hmatched hrun hrest ih =>
    rw [source_eq hmatched] at hdistinct
    obtain ⟨-, hrestdistinct, hapart⟩ := List.nodup_append.1 hdistinct
    have hbehind : ∀ g ∈ fs, ∀ x ∈ matched, x ∈ g.matched → False := fun g hg x hx hxg =>
      hapart x hx x (hrest.matched_subset g hg hxg) rfl
    intro f hf g hg x hx hx'
    rcases List.mem_cons.1 hf with rfl | hf
    · rcases List.mem_cons.1 hg with rfl | hg
      · rfl
      · exact (hbehind g hg x hx hx').elim
    · rcases List.mem_cons.1 hg with rfl | hg
      · exact (hbehind f hf x hx' hx).elim
      · exact ih hrestdistinct f hf g hg x hx hx'

/-- What a scan collects is copied, or takes the place of a run. -/
theorem Scans.mem_out (h : Scans rules inner code p fs out q)
    (hdistinct : (code.map (·.1)).Nodup) (id : Handle) :
    id ∈ out ↔ (id ∈ code.map (·.1) ∧ ∀ f ∈ fs, id ∉ f.matched) ∨ ∃ f ∈ fs, id ∈ f.replacement := by
  induction h with
  | nil => simp
  | @keep head o rest p q fs out hmatch hrest ih =>
    obtain ⟨hhead, hdistinct⟩ := List.nodup_cons.1 hdistinct
    rw [List.mem_cons, ih hdistinct, List.map_cons, List.mem_cons]
    -- The runs of later firings are parts of the rest, which does not hold the head again.
    have hcopied : ∀ f ∈ fs, head ∉ f.matched := fun f hf hmem =>
      hhead (hrest.matched_subset f hf hmem)
    constructor
    · rintro (rfl | ⟨hmem, hnot⟩ | hfired)
      · exact .inl ⟨.inl rfl, hcopied⟩
      · exact .inl ⟨.inr hmem, hnot⟩
      · exact .inr hfired
    · rintro (⟨rfl | hmem, hnot⟩ | hfired)
      · exact .inl rfl
      · exact .inr (.inl ⟨hmem, hnot⟩)
      · exact .inr (.inr hfired)
  | @fire head o rest p p' q fs out matched replacement rule length hmatch hmatched hrun hrest ih =>
    rw [source_eq hmatched] at hdistinct ⊢
    obtain ⟨-, hdistinct, hapart⟩ := List.nodup_append.1 hdistinct
    rw [List.mem_append, List.mem_append, ih hdistinct]
    simp only [List.mem_cons, forall_eq_or_imp, exists_eq_or_imp]
    -- What comes behind a run is not in it.
    have hbehind : id ∈ (rest.drop (length - 1)).map (·.1) → id ∉ matched := fun hmem hid =>
      hapart id hid id hmem rfl
    constructor
    · rintro (hout | ⟨hmem, hnot⟩ | hfired)
      · exact .inr (.inl hout)
      · exact .inl ⟨.inr hmem, hbehind hmem, hnot⟩
      · exact .inr (.inr hfired)
    · rintro (⟨hrun | hmem, hnot, hothers⟩ | hout | hfired)
      · exact absurd hrun hnot
      · exact .inr (.inl ⟨hmem, hothers⟩)
      · exact .inl hout
      · exact .inr (.inr hfired)

/-- No instruction takes the place of two runs. -/
theorem Scans.replacement_apart (h : Scans rules inner code p fs out q)
    (hdistinct : (code.map (·.1)).Nodup) (hout : out.Nodup) :
    ∀ f ∈ fs, ∀ g ∈ fs, ∀ id ∈ f.replacement, id ∈ g.replacement → f = g := by
  induction h with
  | nil => exact List.forall_mem_nil _
  | keep _ _ ih => exact ih (List.nodup_cons.1 hdistinct).2 (List.nodup_cons.1 hout).2
  | @fire id o rest p p' q fs out matched replacement rule length hmatch hmatched hrun hrest ih =>
    rw [source_eq hmatched] at hdistinct
    obtain ⟨-, hdistinct, -⟩ := List.nodup_append.1 hdistinct
    obtain ⟨-, hout, hapart⟩ := List.nodup_append.1 hout
    -- What takes the place of a later run is collected behind this one, and nothing is collected
    -- twice.
    have hbehind : ∀ g ∈ fs, ∀ x ∈ replacement, x ∈ g.replacement → False := fun g hg x hx hxg =>
      hapart x hx x ((hrest.mem_out hdistinct x).2 (.inr ⟨g, hg, hxg⟩)) rfl
    intro f hf g hg x hx hx'
    rcases List.mem_cons.1 hf with rfl | hf
    · rcases List.mem_cons.1 hg with rfl | hg
      · rfl
      · exact (hbehind g hg x hx hx').elim
    · rcases List.mem_cons.1 hg with rfl | hg
      · exact (hbehind f hf x hx' hx).elim
      · exact ih hdistinct hout f hf g hg x hx hx'

/-- **Lines behind a scan.** Entries stay as they are, and beside them there are the lines that were
    carried on.  The lines and thieves of the source count, since firings are contained. -/
theorem Scans.lines_eq {b : Body} {live : List Handle} (h : Scans rules inner code p fs out q)
    (hrules : ∀ rule ∈ rules.rules, ∀ matched, (rule.handler matched).NeverSetsLine)
    (hp : p.draft.pool.AllNoted) (hsize : b.pool.size ≤ p.draft.pool.size)
    (hdistinct : (code.map (·.1)).Nodup) (hlt : ∀ id ∈ code.map (·.1), id < b.pool.size)
    (hfs : ∀ f ∈ fs, f.Contained b live)
    (hkept : ∀ f ∈ fs, ∀ id ∈ f.matched, id ∈ live → id ∈ f.replacement)
    (hlines : ∀ id ∈ code.map (·.1), p.draft.lines.get? id = b.lines.get? id)
    (hthieves : ∀ id ∈ code.map (·.1), id ∉ live →
      p.draft.pool.stolenBy id = b.pool.stolenBy id) (key : Handle) :
    q.draft.lines.get? key =
      (p.draft.lines.get? key).or (fs.findSome? (·.carried? b key)) := by
  induction h with
  | nil => exact Option.or_none.symm
  | keep _ _ ih =>
    exact ih hp hsize (List.nodup_cons.1 hdistinct).2
      (fun id hid => hlt id (List.mem_cons_of_mem _ hid)) hfs hkept
      (fun id hid => hlines id (List.mem_cons_of_mem _ hid))
      fun id hid => hthieves id (List.mem_cons_of_mem _ hid)
  | @fire head o rest p p' q fs out matched replacement rule length hmatch hmatched hrun hrest ih =>
    rw [source_eq hmatched] at hdistinct hlt hlines hthieves
    obtain ⟨-, hdistinct, hapart⟩ := List.nodup_append.1 hdistinct
    obtain ⟨hf, hfs⟩ := List.forall_mem_cons.1 hfs
    obtain ⟨hkeptf, hkept⟩ := List.forall_mem_cons.1 hkept
    generalize hfiring : Firing.mk matched replacement ((rule.handler matched).deeds inner p) = f
      at hf hkeptf ⊢
    have hmatched' : f.matched = matched := by rw [← hfiring]
    have hreplacement : f.replacement = replacement := by rw [← hfiring]
    have hdeeds : f.deeds = (rule.handler matched).deeds inner p := by rw [← hfiring]
    have hdone := Script.deeds_of_run hrun
    -- The line is carried as if the firing had come first.
    have hcarried : ∀ k, f.carried? p.draft.toBody k = f.carried? b k := by
      intro k
      refine Firing.carried?_congr (fun id hid => ?_) fun id hid hnot => ?_
      · rw [hmatched'] at hid
        exact hlines id (List.mem_append_left _ hid)
      · have hdead : id ∉ live := fun hlive => hnot (hkeptf id hid hlive)
        rw [hmatched'] at hid
        rw [Firing.thief?, Firing.thief?, hthieves id (List.mem_append_left _ hid) hdead]
    have hstolen : ∀ id, p'.draft.pool.stolenBy id = f.thief? p.draft.toBody id := by
      intro id
      rw [Script.stolenBy_of_run hp hrun, Firing.thief?, hdeeds]
    have hnow : ∀ k, (carryLine p'.draft matched replacement).lines.get? k =
        (p.draft.lines.get? k).or (f.carried? b k) := by
      intro k
      have hrule := RuleSet.mem_of_firstMatch? hmatch
      rw [← hcarried, ← hmatched', ← hreplacement]
      exact get?_carryLine (Script.lines_of_run (hrules rule hrule matched) hrun) hstolen k
    -- What is left to go over has nothing to do with the firing.
    have hnot : ∀ id ∈ (rest.drop (length - 1)).map (·.1), id ∉ matched ∧ id < b.pool.size :=
      fun id hid => ⟨fun hmem => hapart id hmem id hid rfl, hlt id (List.mem_append_right _ hid)⟩
    rw [ih, hnow, List.findSome?_cons, Option.or_assoc]
    · cases f.carried? b key <;> rfl
    · rw [pool_carryLine]
      exact hdone.allNoted hp
    · rw [pool_carryLine]
      exact Nat.le_trans hsize (hdone.size_le hp)
    · exact hdistinct
    · exact fun id hid => (hnot id hid).2
    · exact hfs
    · exact hkept
    · intro id hid
      obtain ⟨hmem, hlt⟩ := hnot id hid
      have hout : id ∉ f.replacement := by
        intro hin
        rcases hf.returned id hin with hrun | ⟨i, hi⟩
        · exact hmem (hmatched' ▸ hrun)
        · have hle := (hdone.emitted hp (hdeeds ▸ hi)).1
          exact absurd hlt (Nat.not_lt.2 (Nat.le_trans hsize hle))
      rw [hnow, Firing.carried?_eq_none hout, Option.or_none]
      exact hlines id (List.mem_append_right _ hid)
    · intro id hid hdead
      obtain ⟨hmem, hlt⟩ := hnot id hid
      have hthief : lastThief? f.deeds id = none := by
        refine Pool.lastThief?_eq_none fun thief hstole => ?_
        rcases hf.victims thief id hstole with hrun | hlive | hle
        · exact hmem (hmatched' ▸ hrun)
        · exact hdead hlive
        · exact absurd hlt (Nat.not_lt.2 hle)
      rw [pool_carryLine, hstolen, Firing.thief?, hthief, Option.none_or]
      exact hthieves id (List.mem_append_right _ hid) hdead

end Pass

/-! ### Rewritten bodies -/

/-- The body `b'` is `b` after the firings `fs`. -/
structure Rewritten (b : Body) (fs : List Firing) (b' : Body) : Prop where
  lt_size : ∀ id ∈ b.instrs, id < b.pool.size
  matched : ∀ f ∈ fs, f.matched ⊆ b.instrs
  matched_apart : ∀ f ∈ fs, ∀ g ∈ fs, ∀ id ∈ f.matched, id ∈ g.matched → f = g
  /-- Live instructions are copied or take the place of a run. -/
  mem : ∀ id, id ∈ b'.instrs ↔
    (id ∈ b.instrs ∧ ∀ f ∈ fs, id ∉ f.matched) ∨ ∃ f ∈ fs, id ∈ f.replacement
  replacement_apart : ∀ f ∈ fs, ∀ g ∈ fs, ∀ id ∈ f.replacement, id ∈ g.replacement → f = g
  /-- What takes the place of a run is of the run, or new. -/
  returned : ∀ f ∈ fs, ∀ id ∈ f.replacement, id ∈ f.matched ∨ b.pool.size ≤ id
  contained : ∀ f ∈ fs, f.Contained b b'.instrs
  lines : ∀ key, b'.lines.get? key = (b.lines.get? key).or (fs.findSome? (·.carried? b key))
  stolenBy : ∀ id, b'.pool.stolenBy id =
    (lastThief? (fs.flatMap (·.deeds)) id).or (b.pool.stolenBy id)

/-- **Scans.** A scan that starts with the lines and thieves of a body rewrites it, when its firings
    are contained. -/
theorem Pass.Scans.rewritten {rules : RuleSet σ} {code : List (Handle × Opcode)} {p q : Pass σ}
    {fs : List Firing} {b b' : Body} (h : Scans rules inner code p fs b'.instrs q)
    (hrules : ∀ rule ∈ rules.rules, ∀ matched, (rule.handler matched).NeverSetsLine)
    (hp : p.draft.pool.AllNoted) (hsize : p.draft.pool.size = b.pool.size)
    (hlines : p.draft.lines = b.lines)
    (hstolen : ∀ id, p.draft.pool.stolenBy id = b.pool.stolenBy id)
    (hcode : code.map (·.1) = b.instrs) (hdistinct : b.instrs.Nodup)
    (hlt : ∀ id ∈ b.instrs, id < b.pool.size) (hfs : ∀ f ∈ fs, f.Contained b b'.instrs)
    (hout : b'.instrs.Nodup) (hlines' : b'.lines = q.draft.lines)
    (hpool' : b'.pool = q.draft.pool) : Rewritten b fs b' := by
  have hscan : (code.map (·.1)).Nodup := hcode ▸ hdistinct
  have hmem := h.mem_out hscan
  have hapart := h.matched_apart hscan
  have hsubset : ∀ f ∈ fs, f.matched ⊆ b.instrs := hcode ▸ h.matched_subset
  -- New instructions have handles beyond those of the body.
  have hreturned : ∀ f ∈ fs, ∀ id ∈ f.replacement, id ∈ f.matched ∨ b.pool.size ≤ id := by
    intro f hf id hid
    rcases (hfs f hf).returned id hid with hrun | ⟨i, hi⟩
    · exact .inl hrun
    · have hle := (h.deeds.emitted hp (List.mem_flatMap.2 ⟨f, hf, hi⟩)).1
      exact .inr (hsize ▸ hle)
  -- An instruction of a run is not new, so only the firing of its own run can put it back.
  have hkept : ∀ f ∈ fs, ∀ id ∈ f.matched, id ∈ b'.instrs → id ∈ f.replacement := by
    intro f hf id hid hlive
    rcases (hmem id).1 hlive with ⟨-, hnot⟩ | ⟨g, hg, hplace⟩
    · exact absurd hid (hnot f hf)
    · rcases hreturned g hg id hplace with hrun | hle
      · rwa [hapart f hf g hg id hid hrun]
      · exact absurd (hlt id (hsubset f hf hid)) (Nat.not_lt.2 hle)
  refine ⟨hlt, hsubset, hapart, by rwa [← hcode], h.replacement_apart hscan hout, hreturned, hfs,
    fun key => ?_, fun id => ?_⟩
  · rw [hlines', h.lines_eq hrules hp (Nat.le_of_eq hsize.symm) hscan (by rwa [hcode]) hfs hkept
      (fun id _ => by rw [hlines]) (fun id _ _ => hstolen id), hlines]
  · rw [hpool', h.stolenBy_eq hp, hstolen]

namespace Rewritten

variable {b b' : Body} {fs : List Firing} {f : Firing} {id : Handle} (h : Rewritten b fs b')

include h

/-- Instructions that the source had, but that were not live, do not come back. -/
theorem mem_of_lt (hlt : id < b.pool.size) (hid : id ∈ b'.instrs) : id ∈ b.instrs := by
  rcases (h.mem id).1 hid with ⟨hmem, -⟩ | ⟨f, hf, hout⟩
  · exact hmem
  · rcases h.returned f hf id hout with hrun | hle
    · exact h.matched f hf hrun
    · exact absurd hlt (Nat.not_lt.2 hle)

/-- An instruction of a run that is live afterwards takes the place of the same run. -/
theorem kept (hf : f ∈ fs) (hid : id ∈ f.matched) (hlive : id ∈ b'.instrs) :
    id ∈ f.replacement := by
  rcases (h.mem id).1 hlive with ⟨-, hnot⟩ | ⟨g, hg, hout⟩
  · exact absurd hid (hnot f hf)
  · rcases h.returned g hg id hout with hrun | hle
    · rwa [h.matched_apart f hf g hg id hid hrun]
    · exact absurd (h.lt_size id (h.matched f hf hid)) (Nat.not_lt.2 hle)

/-- An instruction that is copied takes the place of no run. -/
theorem not_mem_replacement (hid : id ∈ b.instrs) (hcopied : ∀ f ∈ fs, id ∉ f.matched)
    (hf : f ∈ fs) : id ∉ f.replacement := by
  intro hout
  rcases h.returned f hf id hout with hrun | hle
  · exact hcopied f hf hrun
  · exact absurd (h.lt_size id hid) (Nat.not_lt.2 hle)

/-- Only the firing that dropped an instruction takes anything over from it. -/
theorem stolenBy_of_dropped (hf : f ∈ fs) (hid : id ∈ f.matched) (hnot : id ∉ f.replacement) :
    b'.pool.stolenBy id = f.thief? b id := by
  have hdead : id ∉ b'.instrs := fun hlive => hnot (h.kept hf hid hlive)
  have hothers : ∀ g ∈ fs, g ≠ f → lastThief? g.deeds id = none := by
    intro g hg hne
    refine Pool.lastThief?_eq_none fun thief hstole => ?_
    rcases (h.contained g hg).victims thief id hstole with hrun | hlive | hle
    · exact hne (h.matched_apart g hg f hf id hrun hid)
    · exact hdead hlive
    · exact absurd (h.lt_size id (h.matched f hf hid)) (Nat.not_lt.2 hle)
  rw [h.stolenBy, Firing.lastThief?_flatMap hothers, if_pos hf, Firing.thief?]

/-- Nobody takes anything over from instructions that the source had already dropped. -/
theorem stolenBy_of_dead (hlt : id < b.pool.size) (hid : id ∉ b.instrs) :
    b'.pool.stolenBy id = b.pool.stolenBy id := by
  have hthief : lastThief? (fs.flatMap (·.deeds)) id = none := by
    refine Pool.lastThief?_eq_none fun thief hstole => ?_
    obtain ⟨f, hf, hstole⟩ := List.mem_flatMap.1 hstole
    rcases (h.contained f hf).victims thief id hstole with hrun | hlive | hle
    · exact hid (h.matched f hf hrun)
    · exact hid (h.mem_of_lt hlt hlive)
    · exact absurd hlt (Nat.not_lt.2 hle)
  rw [h.stolenBy, hthief, Option.none_or]

/-- What takes the place of no run has the entries that it had. -/
theorem lines_of_not_placed (hnot : ∀ f ∈ fs, id ∉ f.replacement) :
    b'.lines.get? id = b.lines.get? id := by
  have hnone : (fs.findSome? (·.carried? b id)) = none :=
    List.findSome?_eq_none_iff.2 fun f hf => Firing.carried?_eq_none (hnot f hf)
  rw [h.lines, hnone, Option.or_none]

/-- What takes the place of a run has its entry, or the one that is carried on by the firing. -/
theorem lines_of_placed (hf : f ∈ fs) (hid : id ∈ f.replacement) :
    b'.lines.get? id = (b.lines.get? id).or (f.carried? b id) := by
  have honly : ∀ g ∈ fs, ∀ line, g.carried? b id = some line → f = g := fun g hg line hline =>
    h.replacement_apart f hf g hg id hid (Firing.mem_of_carried? hline)
  rw [h.lines]
  congr 1
  cases hfound : fs.findSome? (·.carried? b id) with
  | none => exact (List.findSome?_eq_none_iff.1 hfound f hf).symm
  | some line =>
    obtain ⟨g, hg, hline⟩ := List.exists_of_findSome?_eq_some hfound
    rw [honly g hg line hline, hline]

/-- Entries are such as there were, or those of live instructions. -/
theorem mem_of_line (hline : b'.lines.get? id ≠ none) :
    b.lines.get? id ≠ none ∨ id ∈ b'.instrs := by
  by_cases hplaced : ∃ f ∈ fs, id ∈ f.replacement
  · exact .inr ((h.mem id).2 (.inr hplaced))
  · refine .inl ?_
    rwa [h.lines_of_not_placed fun f hf hid => hplaced ⟨f, hf, hid⟩] at hline

end Rewritten

end StackCode

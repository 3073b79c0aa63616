import StackCode.Proofs.Routine.Storable
import StackCode.Proofs.Transform.Firings
import StackCode.Transform.Action

namespace StackCode

/-!
# Jumps through a pass

Handlers may drop the target of a jump only if they hand its jumps over.  So no jump is left that
leads to a dropped instruction, and the first thief tells where it leads instead.

* `Transformer.firings` — the firings of a pass over a routine, and
  `Transformer.replaces_of_transform` — what they make of its sequence when they are disciplined.
* `Transformer.jumps_of_transform` — disciplined handlers keep jumps live: those of the source keep
  their targets, or go to the first thief of a target that was dropped.
-/

/-! ### Passes -/

variable {σ : Type}

namespace Pass

variable {inner : NestedTransform σ}

/-- Instructions that load no units leave the nested phase nothing to do. -/
theorem run_nestedPhase {source : Encoding} {known : List (StoredUnit × StoredUnit)}
    {ids : List Handle} {p : Pass σ} (h : ∀ id ∈ ids, loadedUnit? p.draft.pool id = none) :
    (nestedPhase inner source known ids).run p = .ok () p := by
  induction ids with
  | nil => rfl
  | cons id rest ih =>
    obtain ⟨hid, hrest⟩ := List.forall_mem_cons.1 h
    rw [nestedPhase]
    simp only [EStateM.run_bind, EStateM.run_get, hid]
    exact ih hrest

/-- The instructions that a scan goes over. -/
def scanned (p : Pass σ) : List (Handle × Opcode) :=
  p.draft.toBody.code.map fun entry => (entry.1, entry.2.opcode)

/-- Without nested units, to transform the body of a pass is to scan it. -/
theorem exists_scan {rules : RuleSet σ} {source : Encoding} {p q : Pass σ} {d : Draft}
    (hunits : ∀ id ∈ p.draft.instrs, loadedUnit? p.draft.pool id = none)
    (h : (transformBody rules inner source).run p = .ok d q) :
    ∃ out, (scan rules inner p.scanned).run p = .ok out q ∧ d = { q.draft with instrs := out } := by
  obtain ⟨_, _, hget, h⟩ := run_bind_eq_ok.1 h
  cases hget
  -- The phase of nested units leaves the pass as it is.
  obtain ⟨_, _, hnested, h⟩ := run_bind_eq_ok.1 h
  rw [run_nestedPhase hunits] at hnested
  cases hnested
  obtain ⟨_, _, hget, h⟩ := run_bind_eq_ok.1 h
  cases hget
  obtain ⟨out, _, hscan, h⟩ := run_bind_eq_ok.1 h
  obtain ⟨_, _, hget, h⟩ := run_bind_eq_ok.1 h
  cases hget
  obtain ⟨rfl, rfl⟩ := run_pure_eq_ok.1 h
  exact ⟨out, hscan, rfl⟩

end Pass

namespace Transform

/-- A pass over a routine as it starts. -/
def start (options : TransformOptions) (c : Routine) (world : World σ) : Pass σ :=
  ⟨{ c.toDraft with encoding := options.encoding.getD c.encoding },
    { world with modes := world.modes.enter }⟩

/-- The firings of a pass over a routine. -/
def firings (rules : RuleSet σ) (options : TransformOptions) (inner : NestedTransform σ)
    (c : Routine) (world : World σ) : List Firing :=
  match (Pass.nestedPhase inner c.encoding [] c.instrs).run (start options c world) with
  | .ok _ p => Pass.firings rules inner p.scanned p
  | .error _ _ => []

variable {rules : RuleSet σ} {options : TransformOptions} {inner : NestedTransform σ}
  {c c' : Routine} {o : Overrides} {world world' : World σ}

/-- Where no unit is loaded, the phase of nested units leaves the pass as it starts. -/
theorem firings_eq (hunits : ∀ id ∈ c.instrs, Pass.loadedUnit? c.pool id = none) :
    firings rules options inner c world =
      Pass.firings rules inner (start options c world).scanned (start options c world) := by
  have hnested : (Pass.nestedPhase inner c.encoding [] c.instrs).run (start options c world) =
      .ok () (start options c world) := Pass.run_nestedPhase hunits
  rw [firings, hnested]

/-- The result of a pass has the instructions that its scan collected, and its pool knows them. -/
theorem exists_scan_of_pass (hunits : ∀ id ∈ c.instrs, Pass.loadedUnit? c.pool id = none)
    (h : (pass rules options inner c o).run world = .ok c' world') :
    ∃ q, (Pass.scan rules inner (start options c world).scanned).run (start options c world) =
        .ok c'.instrs q ∧ c'.pool = q.draft.pool ∧
      ∀ id ∈ c'.instrs, ∃ i, c'.pool.get? id = some i := by
  unfold pass EStateM.run at h
  dsimp only at h
  split at h
  · cases h
  · rename_i d q hbody
    obtain ⟨out, hscan, rfl⟩ := Pass.exists_scan (p := start options c world) hunits hbody
    dsimp only at h
    split at h
    · rename_i c'' hdraft
      cases h
      -- The check of the draft has found all of its instructions in the pool.
      obtain ⟨_, hcheck, hdraft⟩ := bind_eq_ok.1 hdraft
      cases hdraft
      obtain ⟨-, hknown⟩ := Body.check_eq_ok.1 hcheck
      refine ⟨q, hscan, rfl, fun id hid => ?_⟩
      obtain ⟨-, i, hi, -⟩ := hknown id hid
      exact ⟨i, hi⟩
    · cases h

end Transform

namespace Transformer

/-- The firings when a routine is transformed. -/
def firings (t : Transformer σ) (c : Routine) : List Firing :=
  Transform.firings t.rules t.options
    (Transform.unit t.rules t.options (Const.nestingItems c.consts + handlerDepth)) c t.world

variable {t t' : Transformer σ} {c c' : Routine} {o : Overrides}

/-- A transformation that succeeds is a pass over the routine. -/
theorem exists_pass (h : t.transform c o = (.ok c', t')) :
    ∃ world', (Transform.pass t.rules t.options
      (Transform.unit t.rules t.options (Const.nestingItems c.consts + handlerDepth)) c o).run
        t.world = .ok c' world' := by
  unfold transform at h
  dsimp only at h
  split at h
  · rename_i c'' world' hpass
    cases h
    exact ⟨world', hpass⟩
  · cases h

/-- **Passes.** Disciplined firings let the instructions of the result replace those of the
    routine. -/
theorem replaces_of_transform (hc : c.Sound) (hpool : c.pool.AllNoted)
    (hunits : ∀ id ∈ c.instrs, Pass.loadedUnit? c.pool id = none)
    (hfirings : ∀ f ∈ t.firings c, f.Disciplined) (h : t.transform c o = (.ok c', t')) :
    Replaces c.pool c.instrs ((t.firings c).flatMap (·.deeds)) c'.instrs c'.pool ∧
      ∀ id ∈ c'.instrs, ∃ i, c'.pool.get? id = some i := by
  obtain ⟨world', hpass⟩ := exists_pass h
  obtain ⟨q, hscan, hpool', hknown⟩ := Transform.exists_scan_of_pass hunits hpass
  -- The scan goes over the sequence of the routine, in the pool that the routine came with.
  have hsource : (Transform.start t.options c t.world).scanned.map (·.1) = c.instrs := by
    have hstart : ({ c.toBody with encoding := t.options.encoding.getD c.encoding } : Body).Sound :=
      ⟨hc.known, hc.distinct, hc.fits, hc.declared⟩
    rw [Pass.scanned, List.map_map]
    exact Body.map_fst_code hstart
  refine ⟨?_, hknown⟩
  rw [firings, Transform.firings_eq hunits] at hfirings ⊢
  rw [hpool', ← hsource]
  exact (Pass.scans_of_run hscan).replaces hfirings hpool (hsource ▸ hc.distinct)
    (hsource ▸ Body.lt_size_of_sound hc)

/-- **Jumps through a pass.** Let the jumps of a routine without units in it be live, let its pool
    be such as calls make it, and let all firings be disciplined.  Then the jumps of the result are
    live, so that none of them keeps it from being stored.  A jump of the source that is still there
    keeps its target where that is still there, and leads to the first thief of its target
    otherwise. -/
theorem jumps_of_transform (hc : c.Sound) (hpool : c.pool.Consistent)
    (hunits : ∀ id ∈ c.instrs, Pass.loadedUnit? c.pool id = none) (hjumps : c.JumpsLive)
    (hfirings : ∀ f ∈ t.firings c, f.Disciplined) (h : t.transform c o = (.ok c', t')) :
    c'.JumpsLive ∧
    (∀ options source opcode target,
      c'.store? options ≠ .error (.unresolvedJump source opcode target)) ∧
    ∀ id ∈ c'.instrs, id ∈ c.instrs → ∀ target, c.pool.target? id = some target →
      (target ∈ c'.instrs → c'.pool.target? id = some target) ∧
      (target ∉ c'.instrs → ∃ thief,
        Pool.firstThief? ((t.firings c).flatMap (·.deeds)) target = some thief ∧
          c'.pool.target? id = some thief) := by
  have hlt := Body.lt_size_of_sound hc
  obtain ⟨hreplaces, hknown⟩ := replaces_of_transform hc hpool.notes hunits hfirings h
  -- The scan replaces the sequence of the source, by deeds in which no thief is robbed.
  have hlive : c'.JumpsLive := hreplaces.target_mem hpool.notes hlt hjumps
  refine ⟨hlive, Routine.store?_ne_unresolvedJump hlive hknown, fun id _ hid target htarget => ?_⟩
  have hnow := hreplaces.target?_eq hpool.notes (hlt id hid)
  rw [htarget, Option.map_some] at hnow
  constructor
  · intro hmem
    rw [hnow, hreplaces.firstThief?_of_mem hmem, Option.getD_none]
  · intro hnot
    obtain ⟨thief, -, hfirst⟩ := hreplaces.exists_firstThief? (hjumps id hid target htarget) hnot
    refine ⟨thief, hfirst, ?_⟩
    rw [hnow, hfirst, Option.getD_some]

/-- A branch that leads to an instruction without effect. -/
def branch : Routine where
  pool := Pool.afterCalls {} [.insertMany [(.loadFast, .localVar "a"),
    (.popJumpIfFalse, .jump 4), (.loadConst, .const (.int 1)), (.returnValue, .none),
    (.nop, .none), (.loadConst, .const (.int 3)), (.returnValue, .none)]]
  instrs := List.range 7
  signature := { positional := ["a"] }
  flags := .ofList [.optimized, .newLocals, .noFree]

/-- Replaces instructions without effect by others, which take over their jumps. -/
def replaceNop : Transformer (List Visit) where
  rules := { rules := [{
    name := "nop"
    pattern := .op .nop
    matcher := .cls (· = .nop)
    compiled := rfl
    modes := [{}]
    handler := Action.handler [.make (.instr .loadConst (.const (.int 2))) false,
      .make (.instr .popTop .none) false, .steal (.made 0) (.matched 0)] }] }
  world := { state := [] }

/-- The jump of the branch leads to what takes the place of its target. -/
theorem jumps_of_transform_branch :
    ∃ c' t', replaceNop.transform branch {} = (.ok c', t') ∧ c'.JumpsLive ∧
      (∀ options source opcode target,
        c'.store? options ≠ .error (.unresolvedJump source opcode target)) ∧
      branch.pool.target? 1 = some 4 ∧ c'.pool.target? 1 = some 7 := by
  have hrun : (replaceNop.transform branch {}).1.toOption.map (·.instrs) =
      some [0, 1, 2, 3, 7, 8, 5, 6] := by decide +kernel
  obtain ⟨c', hc', hinstrs⟩ := Option.map_eq_some_iff.1 hrun
  have htransform : replaceNop.transform branch {} =
      (.ok c', (replaceNop.transform branch {}).2) := Prod.ext (eq_ok_of_toOption hc') rfl
  have hfirings : replaceNop.firings branch = [⟨[4], [7, 8],
      [.emitted 7 ⟨.loadConst, .const (.int 2)⟩, .emitted 8 ⟨.popTop, .none⟩, .stole 7 4]⟩] := by
    decide +kernel
  -- Both instructions put in place are new and do not jump, and `7` robs the one that is dropped.
  have hdisciplined : ∀ f ∈ replaceNop.firings branch, f.Disciplined := by
    rw [hfirings, List.forall_mem_singleton]
    refine ⟨nofun, fun id hid => .inr ?_, fun thief victim h => ?_, fun id hid _ => ⟨7, ?_⟩⟩
    · rcases List.mem_pair.1 hid with rfl | rfl
      · exact ⟨⟨.loadConst, .const (.int 2)⟩, by decide, rfl⟩
      · exact ⟨⟨.popTop, .none⟩, by decide, rfl⟩
    · have heq : thief = 7 ∧ victim = 4 := by simpa using h
      rw [heq.1, heq.2]
      decide
    · rw [List.mem_singleton.1 hid]
      decide
  obtain ⟨hlive, hstore, htargets⟩ := jumps_of_transform (by decide +kernel)
    (Pool.consistent_empty.afterCalls _) (by decide +kernel) (by decide +kernel) hdisciplined
    htransform
  have htarget : branch.pool.target? 1 = some 4 := by decide +kernel
  obtain ⟨thief, hfirst, hthief⟩ := (htargets 1 (by rw [hinstrs]; decide) (by decide) 4 htarget).2
    (by rw [hinstrs]; decide)
  rw [hfirings] at hfirst
  cases hfirst
  exact ⟨c', _, htransform, hlive, hstore, htarget, hthief⟩

end Transformer

end StackCode

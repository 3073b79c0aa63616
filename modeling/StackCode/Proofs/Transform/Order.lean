import StackCode.Proofs.Transform.Partition

namespace StackCode

/-!
# The order of nested passes

Nested units are transformed before the scan of the unit that loads them, and each of them in the
same way.  So scans come in post-order; the induction is on the depth of the forest of units.

* `Body.nestedUnits` — the distinct units that a body loads, in the order of their first loads.
* `Postorder` — the routines of a forest of units, units within others first.
* `Sweep` — a scan that was done, with its routine; `Sweeps` says that scans were done one after
  the other, in post-order.
* `Transform.sweeps_of_mapM`, `Transform.sweeps_of_pass` — what nested passes and passes do.
* `Sweeps.log_eq` — what handlers note of the units comes in the same order.
* `Transform.order_of_pass` — the phase of nested units and the order of all scans.
-/

variable {σ : Type}

/-! ### Units in post-order -/

/-- The units that the instructions of a body load, each of them where it is loaded first. -/
def Body.nestedUnits (b : Body) : List StoredUnit :=
  (b.instrs.filterMap (Pass.loadedUnit? b.pool)).eraseDups

/-- When none is known, the fresh units are the distinct ones that are loaded. -/
theorem Pass.freshUnits_nil (b : Body) : freshUnits [] b.pool b.instrs = b.nestedUnits := by
  simp [freshUnits, Body.nestedUnits]

/-- The routines of a forest of units: behind the routines of the units that it loads comes that of
    the unit itself, and then those of the next unit. -/
inductive Postorder : Encoding → List StoredUnit → List Routine → Prop where
  | nil {e : Encoding} : Postorder e [] []
  | cons {e : Encoding} {unit : StoredUnit} {rest : List StoredUnit} {c : Routine}
      {within behind : List Routine} (hload : Routine.load? unit e = .ok c)
      (hwithin : Postorder c.encoding c.nestedUnits within) (hbehind : Postorder e rest behind) :
      Postorder e (unit :: rest) (within ++ c :: behind)

/-- A forest has its routines in one order only. -/
theorem Postorder.unique {e : Encoding} {units : List StoredUnit} {cs cs' : List Routine}
    (h : Postorder e units cs) (h' : Postorder e units cs') : cs = cs' := by
  induction h generalizing cs' with
  | nil =>
    cases h'
    rfl
  | cons hload _ _ ihwithin ihbehind =>
    obtain _ | ⟨hload', hwithin', hbehind'⟩ := h'
    cases hload.symm.trans hload'
    rw [ihwithin hwithin', ihbehind hbehind']

/-! ### Scans in sequence -/

/-- A pass over a routine that gets to its end: the world in which it was started, the passes in
    which its scan started and ended, and what the scan collected.  At most `depth` passes nest
    within it. -/
structure Sweep (σ : Type) where
  routine : Routine
  depth : Nat
  world : World σ
  before : Pass σ
  out : List Handle
  after : Pass σ

/-- The pass transforms each of the units that its routine loads, one after the other in the order
    of their first loads, puts the results in the place of the units, and scans the routine. -/
structure Sweep.Done (rules : RuleSet σ) (options : TransformOptions) (s : Sweep σ) : Prop where
  phase : (Pass.nestedPhase (Transform.unit rules options s.depth) s.routine.encoding []
    s.routine.instrs).run (Transform.start options s.routine s.world) = .ok () s.before
  nested : ∃ f, (s.routine.nestedUnits.mapM fun unit =>
      Transform.unit rules options s.depth unit s.routine.encoding).run
        { s.world with modes := s.world.modes.enter } =
      .ok (s.routine.nestedUnits.map f) s.before.world ∧
    (∀ id ∈ s.routine.instrs, Pass.loadedUnit? s.before.draft.pool id =
      (Pass.loadedUnit? s.routine.pool id).map f) ∧
    s.before.draft = { (Transform.start options s.routine s.world).draft with
      pool := s.routine.pool.mapUnitsIn f s.routine.instrs }
  scanned : (Pass.scan rules (Transform.unit rules options s.depth) s.before.scanned).run s.before =
    .ok s.out s.after

/-- Each scan starts in the user state that the one before it has left: the first one in `state`,
    while the last one leaves `state'`. -/
def Sweep.Linked : σ → List (Sweep σ) → σ → Prop
  | state, [], state' => state = state'
  | state, s :: rest, state' =>
    s.before.world.state = state ∧ Sweep.Linked s.after.world.state rest state'

/-- Sequences of scans are linked when the second starts in the state that the first has left. -/
theorem Sweep.Linked.append {state state' state'' : σ} {ss ts : List (Sweep σ)}
    (h : Linked state ss state') (h' : Linked state' ts state'') :
    Linked state (ss ++ ts) state'' := by
  induction ss generalizing state with
  | nil =>
    cases h
    exact h'
  | cons s rest ih => exact ⟨h.1, ih h.2⟩

/-- The scans of the routines `cs` were done one after the other. -/
structure Sweeps (rules : RuleSet σ) (options : TransformOptions) (cs : List Routine) (state : σ)
    (ss : List (Sweep σ)) (state' : σ) : Prop where
  routines : ss.map (·.routine) = cs
  done : ∀ s ∈ ss, s.Done rules options
  linked : Sweep.Linked state ss state'

section

variable {rules : RuleSet σ} {options : TransformOptions} {cs cs' : List Routine}
  {state state' state'' : σ} {ss ss' : List (Sweep σ)} {s : Sweep σ}

/-- No scans are done. -/
theorem Sweeps.nil : Sweeps rules options [] state [] state :=
  ⟨rfl, List.forall_mem_nil _, rfl⟩

/-- Scans that were done are followed by more of them. -/
theorem Sweeps.append (h : Sweeps rules options cs state ss state')
    (h' : Sweeps rules options cs' state' ss' state'') :
    Sweeps rules options (cs ++ cs') state (ss ++ ss') state'' where
  routines := by rw [List.map_append, h.routines, h'.routines]
  done := List.forall_mem_append.2 ⟨h.done, h'.done⟩
  linked := h.linked.append h'.linked

/-- A pass that is done is one scan. -/
theorem Sweep.Done.sweeps (h : s.Done rules options) :
    Sweeps rules options [s.routine] s.before.world.state [s] s.after.world.state :=
  ⟨rfl, List.forall_mem_singleton.2 h, rfl, rfl⟩

end

namespace Transform

variable {rules : RuleSet σ} {options : TransformOptions} {depth : Nat} {c c' : Routine}
  {o : Overrides} {world world' : World σ}

/-- **Passes.** A pass that succeeds transforms the nested units and scans its routine. -/
theorem exists_sweep (hc : c.Sound)
    (h : (pass rules options (unit rules options depth) c o).run world = .ok c' world') :
    ∃ s : Sweep σ, s.Done rules options ∧ s.routine = c ∧ s.depth = depth ∧ s.world = world ∧
      c'.instrs = s.out ∧ { s.after.world with modes := s.after.world.modes.leave } = world' := by
  obtain ⟨p, out, q, hnests, hscan, hmade, rfl⟩ := pass_eq_ok.1 h
  obtain ⟨f, -, hruns, hdraft⟩ := hnests.exists_mapM hc.distinct
  have hfresh : Pass.freshUnits [] (start options c world).draft.pool c.instrs = c.nestedUnits :=
    Pass.freshUnits_nil c.toBody
  rw [hfresh] at hruns
  obtain ⟨_, -, hmade⟩ := bind_eq_ok.1 hmade
  cases hmade
  refine ⟨⟨c, depth, world, p, out, q⟩, ⟨hnests.run_eq_ok, ⟨f, hruns, fun id hid => ?_, hdraft⟩,
    hscan⟩, rfl, rfl, rfl, rfl, rfl⟩
  show Pass.loadedUnit? p.draft.pool id = _
  rw [hdraft]
  exact Pool.loadedUnit?_mapUnitsIn hid

/-- The scans of a pass, if those of passes nested in it come in post-order. -/
theorem sweeps_of_pass (hc : c.Sound)
    (hnested : ∀ (units results : List StoredUnit) (e : Encoding) (w w' : World σ),
      (units.mapM fun stored => unit rules options depth stored e).run w = .ok results w' →
      ∃ cs ss, Postorder e units cs ∧ Sweeps rules options cs w.state ss w'.state)
    (h : (pass rules options (unit rules options depth) c o).run world = .ok c' world') :
    ∃ within ss s, Postorder c.encoding c.nestedUnits within ∧
      Sweeps rules options (within ++ [c]) world.state (ss ++ [s]) world'.state ∧
      s.depth = depth ∧ s.world = world ∧ c'.instrs = s.out := by
  obtain ⟨s, hdone, rfl, rfl, rfl, hout, rfl⟩ := exists_sweep hc h
  obtain ⟨f, hruns, -⟩ := hdone.nested
  obtain ⟨within, ss, hwithin, hss⟩ := hnested _ _ _ _ _ hruns
  exact ⟨within, ss, s, hwithin, hss.append hdone.sweeps, rfl, rfl, hout⟩

/-- **Nested passes.** Units that are transformed one after the other are scanned in post-order. -/
theorem sweeps_of_mapM {units results : List StoredUnit} {e : Encoding}
    (h : (units.mapM fun stored => unit rules options depth stored e).run world =
      .ok results world') :
    ∃ cs ss, Postorder e units cs ∧ Sweeps rules options cs world.state ss world'.state := by
  -- The induction is on the limit of nesting, and for each limit on the units.
  induction depth generalizing units results e world world' with
  | zero =>
    cases units with
    | nil =>
      obtain ⟨-, rfl⟩ := run_pure_eq_ok.1 h
      exact ⟨[], [], .nil, .nil⟩
    | cons stored rest =>
      obtain ⟨_, _, _, hfails, -⟩ := run_mapM_cons_eq_ok.1 h
      cases hfails
  | succ depth ihdepth =>
    induction units generalizing results world with
    | nil =>
      obtain ⟨-, rfl⟩ := run_pure_eq_ok.1 h
      exact ⟨[], [], .nil, .nil⟩
    | cons stored rest ih =>
      obtain ⟨result, w, results, hfirst, hrest, -⟩ := run_mapM_cons_eq_ok.1 h
      obtain ⟨c, out, hload, hpass, -⟩ := unit_eq_ok.1 hfirst
      obtain ⟨within, ss, s, hwithin, hss, -⟩ := sweeps_of_pass (Routine.sound_of_load hload).1
        (fun _ _ _ _ _ hruns => ihdepth hruns) hpass
      obtain ⟨behind, ss', hbehind, hss'⟩ := ih hrest
      refine ⟨within ++ c :: behind, ss ++ [s] ++ ss', .cons hload hwithin hbehind, ?_⟩
      rw [List.append_cons]
      exact hss.append hss'

end Transform

/-! ### Notes -/

/-- What a handler that succeeds adds to a log: the name of the unit, if it notes units. -/
def Handler.Notes (inner : NestedTransform σ) (log : σ → List String) (notes : Bool)
    (h : Handler σ) : Prop :=
  ∀ matched out p q, ((h matched).run inner).run p = .ok out q →
    log q.world.state = log p.world.state ++ if notes then [p.draft.name] else []

namespace Pass

variable {rules : RuleSet σ} {inner : NestedTransform σ} {code : List (Handle × Opcode)}
  {p q : Pass σ} {out : List Handle}

/-- **Scans.** The name of the unit is noted as often as a rule that notes units fires. -/
theorem Scans.log_eq {fs : List Firing} {log : σ → List String} {notes : Rule σ → Bool}
    (h : Scans rules inner code p fs out q)
    (hnotes : ∀ rule ∈ rules.rules, rule.handler.Notes inner log (notes rule)) :
    log q.world.state = log p.world.state ++
      List.replicate ((hits rules inner code p).countP (notes ·.1)) p.draft.name := by
  induction h with
  | nil =>
    rw [hits_nil]
    simp
  | keep hmatch _ ih =>
    rw [hits_of_none hmatch]
    exact ih
  | @fire id o rest p p' q fs out matched replacement rule length hmatch hmatched hrun hrest ih =>
    have hfirst := hnotes rule (RuleSet.mem_of_firstMatch? hmatch) matched replacement p p' hrun
    -- The handler does not rename the unit.
    have hname : (carryLine p'.draft matched replacement).name = p.draft.name := by
      rw [draft_carryLine, Script.draft_of_run hrun]
    rw [hname] at ih
    rw [ih, hfirst, hits_of_some hmatch hmatched hrun, List.countP_cons]
    cases notes rule with
    | true => simp [List.replicate_succ]
    | false => simp

end Pass

section

variable {rules : RuleSet σ} {options : TransformOptions} {cs : List Routine} {state state' : σ}
  {ss : List (Sweep σ)} {log : σ → List String} {notes : Rule σ → Bool}

/-- How often rules that note units fire in a pass. -/
def Sweep.noted (rules : RuleSet σ) (options : TransformOptions) (notes : Rule σ → Bool)
    (s : Sweep σ) : Nat :=
  (Pass.hits rules (Transform.unit rules options s.depth) s.before.scanned s.before).countP
    (notes ·.1)

/-- **Notes.** Units are noted in the order of the scans. -/
theorem Sweeps.log_eq (h : Sweeps rules options cs state ss state')
    (hnotes : ∀ depth, ∀ rule ∈ rules.rules,
      rule.handler.Notes (Transform.unit rules options depth) log (notes rule)) :
    log state' = log state ++ ss.flatMap fun s =>
      List.replicate (s.noted rules options notes) s.routine.name := by
  obtain ⟨-, hdone, hlinked⟩ := h
  induction ss generalizing state with
  | nil =>
    cases hlinked
    simp
  | cons s rest ih =>
    obtain ⟨hs, hrest⟩ := List.forall_mem_cons.1 hdone
    obtain ⟨rfl, hlinked⟩ := hlinked
    obtain ⟨f, -, -, hdraft⟩ := hs.nested
    -- Nested passes do not rename the unit around them.
    have hname : s.before.draft.name = s.routine.name := by
      rw [hdraft]
      rfl
    have hscan := (Pass.scans_of_run hs.scanned).log_eq (hnotes s.depth)
    rw [ih hrest hlinked, hscan, hname, List.flatMap_cons, List.append_assoc]
    rfl

end

namespace Transform

variable {rules : RuleSet σ} {options : TransformOptions} {depth : Nat} {c c' : Routine}
  {o : Overrides} {world world' : World σ}

/-- **The order of passes.** A pass that succeeds runs one nested pass for each of the distinct
    units that its routine loads, in the order of their first loads, and then scans the routine,
    where equal units have given way to equal ones; the nested passes do the same.  So routines are
    scanned in post-order, and the user state goes from scan to scan.  Handlers that add the name of
    the unit to a log write down the units in this order. -/
theorem order_of_pass (hc : c.Sound)
    (h : (pass rules options (unit rules options depth) c o).run world = .ok c' world') :
    ∃ within ss s, Postorder c.encoding c.nestedUnits within ∧
      Sweeps rules options (within ++ [c]) world.state (ss ++ [s]) world'.state ∧
      s.depth = depth ∧ s.world = world ∧ c'.instrs = s.out ∧
      ∀ (log : σ → List String) (notes : Rule σ → Bool),
        (∀ depth, ∀ rule ∈ rules.rules,
          rule.handler.Notes (unit rules options depth) log (notes rule)) →
        (log world'.state = log world.state ++ (ss ++ [s]).flatMap fun s =>
          List.replicate (s.noted rules options notes) s.routine.name) ∧
        ((∀ t ∈ ss ++ [s], t.noted rules options notes = 1) →
          log world'.state = log world.state ++ (within ++ [c]).map (·.name)) := by
  obtain ⟨within, ss, s, hwithin, hss, hdepth, hworld, hout⟩ :=
    sweeps_of_pass hc (fun _ _ _ _ _ hruns => sweeps_of_mapM hruns) h
  refine ⟨within, ss, s, hwithin, hss, hdepth, hworld, hout, fun log notes hnotes => ?_⟩
  have hlog := hss.log_eq hnotes
  refine ⟨hlog, fun honce => ?_⟩
  rw [hlog, ← hss.routines, List.map_map, List.map_eq_flatMap]
  refine congrArg _ (List.flatMap_congr fun t ht => ?_)
  rw [honce t ht]
  rfl

/-- Notes the name of every unit that returns, and clears popped values by hand. -/
def marking : RuleSet (List String) where
  rules := [
    .single "mark" .returnValue [{}] fun matched =>
      .look fun v => .setState (v.state ++ [v.draft.name]) (.done matched),
    .single "pop" .popTop [{}] fun matched => .emit ⟨.nop, .none⟩ fun
      | .ok id => .done (matched ++ [id])
      | .error e => .fail (.build e)]

/-- A unit without nested ones. -/
def leaf : StoredUnit := { name := "leaf", code := [100, 0, 83, 0], consts := [.none] }

/-- A unit that loads another one. -/
def branching : StoredUnit :=
  { name := "branching", code := [100, 0, 1, 0, 100, 1, 83, 0], consts := [.code leaf, .none] }

/-- Loads a unit twice, and in between a unit that is nested in the first one, too. -/
def rooted : Routine where
  pool := .ofInstrs [⟨.loadConst, .const (.code branching)⟩, ⟨.popTop, .none⟩,
    ⟨.loadConst, .const (.code leaf)⟩, ⟨.popTop, .none⟩, ⟨.loadConst, .const (.code branching)⟩,
    ⟨.returnValue, .none⟩]
  instrs := List.range 6
  name := "rooted"
  flags := .ofList [.optimized, .newLocals, .noFree]

/-- Each of the three units is noted after those that it loads, and the leaf twice: once for each
    unit that loads it. -/
theorem order_of_pass_rooted : ∃ c' world' within ss s,
    (pass marking {} (unit marking {} 2) rooted {}).run { state := [] } = .ok c' world' ∧
      world'.state = ["leaf", "branching", "leaf", "rooted"] ∧
      Postorder .wordcode [branching, leaf] within ∧
      Sweeps marking {} (within ++ [rooted]) [] (ss ++ [s]) world'.state ∧
      world'.state = (ss ++ [s]).flatMap fun s =>
        List.replicate (s.noted marking {} (·.name = "mark")) s.routine.name := by
  have hrun : ∃ c' world', (pass marking {} (unit marking {} 2) rooted {}).run { state := [] } =
      .ok c' world' ∧ world'.state = ["leaf", "branching", "leaf", "rooted"] := by
    have hstate : (match (pass marking {} (unit marking {} 2) rooted {}).run { state := [] } with
      | .ok _ world => some world.state
      | .error _ _ => none) = some ["leaf", "branching", "leaf", "rooted"] := by decide +kernel
    split at hstate
    · exact ⟨_, _, by assumption, Option.some.inj hstate⟩
    · cases hstate
  obtain ⟨c', world', hpass, hstate⟩ := hrun
  have hsound : rooted.Sound := by decide +kernel
  obtain ⟨within, ss, s, hwithin, hss, -, -, -, hlog⟩ := order_of_pass hsound hpass
  refine ⟨c', world', within, ss, s, hpass, hstate, ?_, hss, ?_⟩
  · have hunits : rooted.nestedUnits = [branching, leaf] := by decide +kernel
    rwa [hunits] at hwithin
  · -- The first rule notes the unit, the second one only clears a value.
    have hnotes : ∀ depth, ∀ rule ∈ marking.rules,
        rule.handler.Notes (unit marking {} depth) id (rule.name = "mark") := by
      intro depth rule hrule matched out p q h
      rcases List.mem_pair.1 hrule with rfl | rfl
      · cases h
        rfl
      · cases h
        exact (List.append_nil _).symm
    exact (hlog id _ hnotes).1

end Transform

end StackCode

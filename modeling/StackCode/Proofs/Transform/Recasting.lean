import Mathlib.Logic.Relation
import StackCode.Proofs.Transform.Partition

namespace StackCode

/-!
# Transformers without rules

Such a transformer loads a unit, deals with the units that it loads in the same way, and stores the
result, perhaps under another encoding.

* `Recast` — what becomes of a unit, by recursion over the units that are loaded.
* `Transform.run_pass_of_units` — a pass without rules changes nothing but the nested units.
* `Transformer.transformUnit_eq_ok` — the transformer does what `Recast` says.
* `Transformer.normalizes_of_loads` — under one encoding, the transformer succeeds for all
  addressable units that can be loaded with all units below them, and leaves what it has made as it
  is.
-/

variable {σ : Type}

/-! ### Nesting -/

namespace Const

/-- A unit nests one level deeper than its constants. -/
theorem unitNesting_eq (unit : StoredUnit) : unitNesting unit = nestingItems unit.consts + 1 := by
  cases unit
  rw [unitNesting]

/-- A list nests as deep as the deepest of its items. -/
theorem nestingItems_le {items : List Const} {n : Nat} :
    nestingItems items ≤ n ↔ ∀ item ∈ items, nesting item ≤ n := by
  induction items with
  | nil => simp [nestingItems]
  | cons item items ih => rw [nestingItems, Nat.max_le, ih, List.forall_mem_cons]

/-- Fewer items nest no deeper. -/
theorem nestingItems_mono {items items' : List Const} (h : items ⊆ items') :
    nestingItems items ≤ nestingItems items' :=
  nestingItems_le.2 fun item hitem => nestingItems_le.1 (Nat.le_refl _) item (h hitem)

end Const

/-- A unit among the operands of a loaded routine nests less deep than its constants. -/
theorem Routine.unitNesting_le {c : Routine} {unit : StoredUnit}
    (h : .const (.code unit) ∈ c.operands) : Const.unitNesting unit ≤ Const.nestingItems c.consts := by
  have hle := Const.nestingItems_le.1 (Nat.le_refl _) (.code unit) (Body.mem_consts.2 h)
  rwa [Const.nesting] at hle

/-- The constants of a loaded routine nest less deep than its unit. -/
theorem Routine.nestingItems_lt {c : Routine} {unit : StoredUnit} {e : Encoding}
    (h : Routine.load? unit e = .ok c) : Const.nestingItems c.consts < Const.unitNesting unit := by
  rw [Const.unitNesting_eq]
  exact Nat.lt_succ_of_le (Const.nestingItems_mono (Routine.consts_subset_of_load h))

/-! ### Passes without rules -/

/-- The units among the operands are those that live instructions load. -/
theorem Routine.mem_operands_code {c : Routine} {unit : StoredUnit} :
    .const (.code unit) ∈ c.operands ↔
      ∃ id ∈ c.instrs, Pass.loadedUnit? c.pool id = some unit := by
  constructor
  · intro h
    obtain ⟨⟨id, i⟩, hmem, hoperand⟩ := List.mem_map.1 h
    obtain ⟨hid, hget⟩ := Body.mem_code.1 hmem
    exact ⟨id, hid, Pool.loadedUnit?_eq_some.2 ⟨i, hget, hoperand⟩⟩
  · rintro ⟨id, hid, hload⟩
    obtain ⟨i, hget, hoperand⟩ := Pool.loadedUnit?_eq_some.1 hload
    exact List.mem_map.2 ⟨(id, i), Body.mem_code.2 ⟨hid, hget⟩, hoperand⟩

/-- The draft of a sound routine makes it again. -/
theorem Routine.ofDraft?_toDraft {c : Routine} (hc : c.Sound) :
    Routine.ofDraft? c.toDraft = .ok c := by
  rw [ofDraft?, toDraft, (Body.sound_iff.1 hc).1]
  rfl

namespace Transform

variable {options : TransformOptions} {inner : NestedTransform σ} {c c' : Routine}
  {world world' : World σ} {f : StoredUnit → StoredUnit}

/-- The routine with other units, as a pass leaves it. -/
def withUnits (options : TransformOptions) (f : StoredUnit → StoredUnit) (c : Routine) : Routine :=
  { c.mapUnits f with encoding := options.encoding.getD c.encoding }

/-- Other units make no routine unsound. -/
theorem sound_withUnits (hc : c.Sound) : (withUnits options f c).Sound :=
  have hsound : (c.mapUnits f).Sound := Routine.sound_mapUnits hc
  ⟨hsound.known, hsound.distinct, hsound.fits, hsound.declared⟩

section

variable (hc : c.Sound) (hlive : c.AllLive)

include hc hlive

/-- After the phase of nested units, the pass has the draft of the routine with other units. -/
theorem exists_draft_of_nests {p : Pass σ}
    (h : Pass.Nests inner c.encoding [] c.instrs (start options c world) p) :
    ∃ f, (∀ unit, .const (.code unit) ∈ c.operands →
        ∃ w w', (inner unit c.encoding).run w = .ok (f unit) w') ∧
      p.draft = (withUnits options f c).toDraft ∧ p.scanned.map (·.1) = c.instrs := by
  obtain ⟨f, -, hloaded, hdraft⟩ := h.exists_map hc.distinct
  refine ⟨f, fun unit hunit => ?_, ?_, ?_⟩
  · obtain ⟨id, hid, hload⟩ := Routine.mem_operands_code.1 hunit
    rcases hloaded id hid unit hload with hknown | hrun
    · cases hknown
    · exact hrun
  · rw [hdraft]
    show { (start options c world).draft with pool := c.pool.mapUnitsIn f c.instrs } = _
    rw [Pool.mapUnitsIn_eq_mapUnits hlive]
    rfl
  · have hsource : (start options c world).scanned =
        c.code.map fun entry => (entry.1, entry.2.opcode) := rfl
    rw [h.scanned_eq, hsource, List.map_map]
    exact Body.map_fst_code hc

/-- A pass without rules that succeeds has changed nothing but the nested units. -/
theorem exists_units_of_pass (h : (pass {} options inner c {}).run world = .ok c' world') :
    ∃ f, (∀ unit, .const (.code unit) ∈ c.operands →
        ∃ w w', (inner unit c.encoding).run w = .ok (f unit) w') ∧
      c' = withUnits options f c := by
  obtain ⟨p, out, q, hnests, hscan, hdraft, -⟩ := pass_eq_ok.1 h
  obtain ⟨f, hinner, hp, hsource⟩ := exists_draft_of_nests hc hlive hnests
  rw [Pass.run_scan_empty, hsource] at hscan
  cases hscan
  refine ⟨f, hinner, ?_⟩
  -- The draft has the sequence of the routine, and no new names.
  rw [hp] at hdraft
  have hmade : Routine.ofDraft? (withUnits options f c).toDraft = .ok (withUnits options f c) :=
    Routine.ofDraft?_toDraft (sound_withUnits hc)
  exact Except.ok.inj (hdraft.symm.trans hmade)

/-- A pass without rules succeeds when the nested passes do, and changes nothing but the nested
    units. -/
theorem run_pass_of_units (hinner : ∀ unit, .const (.code unit) ∈ c.operands →
      ∀ w, ∃ w', (inner unit c.encoding).run w = .ok (f unit) w') (world : World σ) :
    ∃ world', (pass {} options inner c {}).run world = .ok (withUnits options f c) world' := by
  have hfits : ∀ id ∈ c.instrs, (start options c world).FitsAt id := fun id hid => hc.fits id hid
  obtain ⟨p, hnests⟩ : ∃ p, Pass.Nests inner c.encoding [] c.instrs (start options c world) p := by
    refine Pass.exists_nests hc.distinct hfits fun id hid unit hload w => ?_
    exact ⟨f unit, hinner unit (Routine.mem_operands_code.2 ⟨id, hid, hload⟩) w⟩
  obtain ⟨g, hg, hp, hsource⟩ := exists_draft_of_nests hc hlive hnests
  -- Nested passes have one result each, so that the units are those of `f`.
  have hsame : c.mapUnits g = c.mapUnits f := by
    refine Routine.mapUnits_congr hlive fun unit hunit => ?_
    obtain ⟨w, w', hrun⟩ := hg unit hunit
    obtain ⟨w'', hrun'⟩ := hinner unit hunit w
    exact (EStateM.Result.ok.inj (hrun.symm.trans hrun')).1
  have hscan : (Pass.scan {} inner p.scanned).run p = .ok (p.scanned.map (·.1)) p :=
    Pass.run_scan_empty p.scanned p
  rw [hsource] at hscan
  refine ⟨_, pass_eq_ok.2 ⟨p, c.instrs, p, hnests, hscan, ?_, rfl⟩⟩
  rw [hp, withUnits, hsame]
  exact Routine.ofDraft?_toDraft (sound_withUnits hc)

end

/-- How a routine is stored depends on its own encoding only where no other is asked for. -/
theorem store?_withUnits (hoptimizer : options.optimizer = none) :
    (withUnits options f c).store? options =
      (c.mapUnits f).store? { encoding := some (options.encoding.getD c.encoding) } := by
  obtain ⟨encoding, optimizer⟩ := options
  subst hoptimizer
  cases encoding
  · rfl
  · rfl

end Transform

/-! ### Recast units -/

/-- The second unit is the first one, loaded under `src` and stored under `dst`, with each unit that
    it loads recast in the same way. -/
inductive Recast (src dst : Encoding) : StoredUnit → StoredUnit → Prop where
  | mk {unit result : StoredUnit} {c : Routine} {f : StoredUnit → StoredUnit}
      (hload : Routine.load? unit src = .ok c)
      (hunits : ∀ u, .const (.code u) ∈ c.operands → Recast src dst u (f u))
      (hstore : (c.mapUnits f).store? { encoding := some dst } = .ok result) :
      Recast src dst unit result

namespace Transform

variable {options : TransformOptions} {unit result : StoredUnit} {src : Encoding}

/-- What a nested pass without rules makes of a unit is the unit recast. -/
theorem recast_of_run (hoptimizer : options.optimizer = none) {depth : Nat} {world world' : World σ}
    (h : (Transform.unit {} options depth unit src).run world = .ok result world') :
    Recast src (options.encoding.getD src) unit result := by
  induction depth generalizing unit result world world' with
  | zero => cases h
  | succ depth ih =>
    obtain ⟨c, out, hload, hpass, hstore⟩ := unit_eq_ok.1 h
    have hencoding := Routine.encoding_of_load hload
    obtain ⟨f, hinner, rfl⟩ := exists_units_of_pass (Routine.sound_of_load hload).1
      (Routine.allLive_of_load hload) hpass
    rw [store?_withUnits hoptimizer, hencoding] at hstore
    refine .mk hload (fun u hu => ?_) hstore
    obtain ⟨w, w', hrun⟩ := hinner u hu
    rw [hencoding] at hrun
    exact ih hrun

/-- A unit that can be recast is recast by every nested pass without rules, as long as passes may
    nest as deep as its units do. -/
theorem run_of_recast (hoptimizer : options.optimizer = none)
    (h : Recast src (options.encoding.getD src) unit result) {depth : Nat}
    (hdepth : ∀ c, Routine.load? unit src = .ok c → Const.nestingItems c.consts < depth)
    (world : World σ) :
    ∃ world', (Transform.unit {} options depth unit src).run world = .ok result world' := by
  induction h generalizing depth world with
  | @mk unit result c f hload hunits hstore ih =>
    have hc := hdepth c hload
    obtain ⟨n, rfl⟩ : ∃ n, depth = n + 1 := ⟨depth - 1, by omega⟩
    have hencoding := Routine.encoding_of_load hload
    have hinner : ∀ u, .const (.code u) ∈ c.operands → ∀ w : World σ,
        ∃ w', (Transform.unit {} options n u c.encoding).run w = .ok (f u) w' := by
      intro u hu w
      rw [hencoding]
      refine ih u hu (fun c' hload' => ?_) w
      have hlt := Routine.nestingItems_lt hload'
      -- Nested units are less deep than the unit that loads them, so one level less is enough for
      -- them.
      have hle := Routine.unitNesting_le hu
      omega
    obtain ⟨world', hpass⟩ := run_pass_of_units (Routine.sound_of_load hload).1
      (Routine.allLive_of_load hload) hinner world
    refine ⟨world', unit_eq_ok.2 ⟨c, withUnits options f c, hload, hpass, ?_⟩⟩
    rw [store?_withUnits hoptimizer, hencoding]
    exact hstore

end Transform

namespace Transformer

variable {t : Transformer σ} {stored result : StoredUnit} {e : Encoding}

/-- To transform a unit is a pass over it, in which passes nest as deep as its units do. -/
theorem fst_transformUnit_eq_ok {c : Routine} (hload : Routine.load? stored e = .ok c) :
    (t.transformUnit stored e).1 = .ok result ↔ ∃ world',
      (Transform.unit t.rules t.options (Const.nestingItems c.consts + handlerDepth + 1) stored e).run
        t.world = .ok result world' := by
  -- A nested pass loads the unit too, and the routine that it finds is `c`.
  have hunit : ∀ world', (Transform.unit t.rules t.options
      (Const.nestingItems c.consts + handlerDepth + 1) stored e).run t.world = .ok result world' ↔
        ∃ out, (Transform.pass t.rules t.options (Transform.unit t.rules t.options
          (Const.nestingItems c.consts + handlerDepth)) c {}) t.world = .ok out world' ∧
          out.store? t.options = .ok result := by
    intro world'
    rw [Transform.unit_eq_ok]
    constructor
    · rintro ⟨c', out, hload', hrun⟩
      rw [hload] at hload'
      cases hload'
      exact ⟨out, hrun⟩
    · rintro ⟨out, hrun⟩
      exact ⟨c, out, hload, hrun⟩
  simp only [hunit]
  unfold transformUnit transform
  rw [hload]
  dsimp only
  cases Transform.pass t.rules t.options (Transform.unit t.rules t.options
      (Const.nestingItems c.consts + handlerDepth)) c {} t.world with
  | ok out world => simp [mapError_eq_ok]
  | error err world => simp

/-- **Transformers without rules.** They recast units, from the encoding given into the one asked
    for. -/
theorem transformUnit_eq_ok (hrules : t.rules = {}) (hoptimizer : t.options.optimizer = none) :
    (t.transformUnit stored e).1 = .ok result ↔
      Recast e (t.options.encoding.getD e) stored result := by
  constructor
  · intro h
    cases hload : Routine.load? stored e with
    | error err =>
      unfold transformUnit at h
      rw [hload] at h
      cases h
    | ok c =>
      obtain ⟨world', hrun⟩ := (fst_transformUnit_eq_ok hload).1 h
      rw [hrules] at hrun
      exact Transform.recast_of_run hoptimizer hrun
  · intro h
    obtain ⟨hload, -, -⟩ := id h
    refine (fst_transformUnit_eq_ok hload).2 ?_
    rw [hrules]
    -- The depth that the transformer starts with is that of the constants and more.
    refine Transform.run_of_recast hoptimizer h (fun c' hload' => ?_) t.world
    rw [hload] at hload'
    cases hload'
    omega

end Transformer

/-! ### Normal forms -/

/-- A unit without constants is recast alone, and so stored as it was loaded. -/
theorem Recast.store?_of_consts_nil {src dst : Encoding} {unit result : StoredUnit} {c : Routine}
    (h : Recast src dst unit result) (hconsts : unit.consts = [])
    (hload : Routine.load? unit src = .ok c) :
    c.store? { encoding := some dst } = .ok result := by
  obtain ⟨hload', -, hstore⟩ := h
  rename_i c' f
  obtain rfl : c = c' := Except.ok.inj (hload.symm.trans hload')
  have hsame : c.mapUnits f = c.mapUnits id := by
    refine Routine.mapUnits_congr (Routine.allLive_of_load hload) fun u hu => ?_
    have hmem := Routine.consts_subset_of_load hload (Body.mem_consts.2 hu)
    rw [hconsts] at hmem
    cases hmem
  rwa [hsame, Routine.mapUnits_id] at hstore

/-- The first unit loads the second one, under the encoding `e`. -/
def Loads (e : Encoding) (unit u : StoredUnit) : Prop :=
  ∃ c, Routine.load? unit e = .ok c ∧ .const (.code u) ∈ c.operands

/-- Units that are loaded nest less deep. -/
theorem Loads.unitNesting_lt {e : Encoding} {unit u : StoredUnit} (h : Loads e unit u) :
    Const.unitNesting u < Const.unitNesting unit := by
  obtain ⟨c, hload, hu⟩ := h
  exact Nat.lt_of_le_of_lt (Routine.unitNesting_le hu) (Routine.nestingItems_lt hload)

/-- No unit is below a unit without constants, so that all that is asked of the units below it is
    asked of the unit itself. -/
theorem forall_loads_of_consts_nil {e : Encoding} {unit : StoredUnit} {c : Routine}
    (hconsts : unit.consts = []) (hload : Routine.load? unit e = .ok c)
    (hnames : c.signature.varnames.Nodup) :
    ∀ u, Relation.ReflTransGen (Loads e) unit u →
      ∃ c, Routine.load? u e = .ok c ∧ c.signature.varnames.Nodup := by
  intro u h
  rcases h.cases_head with rfl | ⟨v, ⟨c', hload', hv⟩, -⟩
  · exact ⟨c, hload, hnames⟩
  · have hmem := Routine.consts_subset_of_load hload' (Body.mem_consts.2 hv)
    rw [hconsts] at hmem
    cases hmem

/-- Whether all units below a unit are loaded can be checked on a list of units that holds, with
    each unit, those that it loads.  All of them are in that list. -/
theorem forall_loads_of_closed {e : Encoding} {units : List StoredUnit} {stored : StoredUnit}
    (hclosed : ∀ unit ∈ units, ∃ c ∈ (Routine.load? unit e).toOption,
      c.signature.varnames.Nodup ∧ ∀ x ∈ c.consts, ∀ u ∈ x.code?, u ∈ units)
    (hstored : stored ∈ units) :
    ∀ unit, Relation.ReflTransGen (Loads e) stored unit → unit ∈ units ∧
      ∃ c, Routine.load? unit e = .ok c ∧ c.signature.varnames.Nodup := by
  intro unit h
  have hmem : unit ∈ units := by
    induction h with
    | refl => exact hstored
    | tail _ hloads ih =>
      obtain ⟨c, hload, hu⟩ := hloads
      obtain ⟨c', hc', -, hconsts⟩ := hclosed _ ih
      obtain rfl : c = c' := Except.ok.inj (hload.symm.trans (eq_ok_of_toOption hc'))
      exact hconsts _ (Body.mem_consts.2 hu) _ rfl
  obtain ⟨c, hc, hnames, -⟩ := hclosed unit hmem
  exact ⟨hmem, c, eq_ok_of_toOption hc, hnames⟩

/-- What is loaded with all units below it, each addressable and with distinct parameters, is recast
    under its own encoding, and the result is the result of recasting itself. -/
theorem exists_recast_self {e : Encoding} {stored : StoredUnit}
    (h : ∀ unit, Relation.ReflTransGen (Loads e) stored unit → unit.Addressable ∧
      ∃ c, Routine.load? unit e = .ok c ∧ c.signature.varnames.Nodup) :
    ∃ result, Recast e e stored result ∧ Recast e e result result := by
  -- The induction is on the nesting, which shrinks from a unit to those that it loads.
  induction hn : Const.unitNesting stored using Nat.strongRecOn generalizing stored with
  | ind n ih =>
    obtain ⟨hunit, c, hload, hnames⟩ := h stored .refl
    have hbelow : ∀ u, .const (.code u) ∈ c.operands →
        ∃ result, Recast e e u result ∧ Recast e e result result := by
      intro u hu
      have hloads : Loads e stored u := ⟨c, hload, hu⟩
      exact ih _ (hn ▸ hloads.unitNesting_lt) (fun unit hunit => h unit (.head hloads hunit)) rfl
    choose! f hrecast hself using hbelow
    -- Other units in its table change neither the code nor the lines of the unit.
    have hmapped : (stored.mapUnits f).Addressable := ⟨hunit.size, hunit.reach⟩
    obtain ⟨result, hstore⟩ :=
      Routine.exists_store_of_load (Routine.load?_mapUnits (f := f) hload) hmapped
    refine ⟨result, .mk hload hrecast hstore, ?_⟩
    obtain ⟨c', hload', halike, hstore'⟩ :=
      Routine.exists_reload (Routine.load?_mapUnits (f := f) hload) hnames hstore
    refine .mk (f := id) hload' (fun u hu => ?_) (by rw [Routine.mapUnits_id]; exact hstore')
    -- The units of the result are those of the source, recast.
    obtain ⟨k, hk⟩ := List.mem_iff_getElem?.1 hu
    have hmapped := (halike.getElem?_operands k (.code u)).2 hk
    rw [Routine.operands_mapUnits, List.getElem?_map] at hmapped
    obtain ⟨o, ho, hu'⟩ := Option.map_eq_some_iff.1 hmapped
    rcases Operand.mapUnit_eq_const hu' with ⟨v, rfl, heq⟩ | ⟨hnone, -⟩
    · cases heq
      exact hself v (List.mem_of_getElem? ho)
    · cases hnone

namespace Transformer

/-- **Normal forms.** Let a unit and all units below it be loaded under `e`, each addressable and
    with distinct parameters.  A transformer without rules and options succeeds for it, and leaves
    the result as it is when it is given that again.  The user state and the modes do not count. -/
theorem normalizes_of_loads {stored : StoredUnit} {e : Encoding}
    (h : ∀ unit, Relation.ReflTransGen (Loads e) stored unit → unit.Addressable ∧
      ∃ c, Routine.load? unit e = .ok c ∧ c.signature.varnames.Nodup) :
    ∃ result, ∀ world : World σ,
      (({ rules := {}, world := world } : Transformer σ).transformUnit stored e).1 = .ok result ∧
      (({ rules := {}, world := world } : Transformer σ).transformUnit result e).1 = .ok result := by
  obtain ⟨result, hrecast, hself⟩ := exists_recast_self h
  refine ⟨result, fun world => ⟨?_, ?_⟩⟩
  · exact (transformUnit_eq_ok rfl rfl).2 hrecast
  · exact (transformUnit_eq_ok rfl rfl).2 hself

/-- A unit that returns `1`, after `spare` constants that it does not use. -/
def returningOne (spare : Nat) : StoredUnit where
  stacksize := 1
  flags := 67
  code := [100, UInt8.ofNat spare, 83, 0]
  consts := List.replicate spare .none ++ [.int 1]
  name := "one"

/-- A unit that loads two units, which differ in constants that they do not use. -/
def twins : StoredUnit where
  stacksize := 1
  flags := 67
  code := [100, 0, 1, 0, 100, 1, 83, 0]
  consts := [.code (returningOne 0), .code (returningOne 1)]
  name := "twins"

/-- A unit with two units in it is normalised, and the result is normalised to itself. -/
theorem normalizes_of_loads_twins :
    ∃ result, (({ rules := {}, world := { state := () } } : Transformer Unit).transformUnit twins
        .wordcode).1 = .ok result ∧
      (({ rules := {}, world := { state := () } } : Transformer Unit).transformUnit result
        .wordcode).1 = .ok result := by
  have hclosed : ∀ unit ∈ [twins, returningOne 0, returningOne 1],
      ∃ c ∈ (Routine.load? unit .wordcode).toOption, c.signature.varnames.Nodup ∧
        ∀ x ∈ c.consts, ∀ u ∈ x.code?, u ∈ [twins, returningOne 0, returningOne 1] := by
    decide +kernel
  have hunits : ∀ unit ∈ [twins, returningOne 0, returningOne 1], unit.Addressable := by
    intro unit hunit
    simp only [List.mem_cons, List.not_mem_nil, or_false] at hunit
    rcases hunit with rfl | rfl | rfl
    all_goals exact ⟨by decide, by decide⟩
  have hloads := forall_loads_of_closed hclosed List.mem_cons_self
  obtain ⟨result, hresult⟩ := normalizes_of_loads (σ := Unit) fun unit hunit =>
    ⟨hunits unit (hloads unit hunit).1, (hloads unit hunit).2⟩
  exact ⟨result, hresult { state := () }⟩

/-- A transformer without rules does not succeed for a unit without constants whose routine is not
    stored. -/
theorem transformUnit_ne_ok {t : Transformer σ} {stored result : StoredUnit} {e : Encoding}
    {c : Routine} {err : StoreError} (hrules : t.rules = {})
    (hoptimizer : t.options.optimizer = none) (hconsts : stored.consts = [])
    (hload : Routine.load? stored e = .ok c)
    (hstore : c.store? { encoding := some (t.options.encoding.getD e) } = .error err) :
    (t.transformUnit stored e).1 ≠ .ok result := by
  intro h
  have hrecast := (transformUnit_eq_ok hrules hoptimizer).1 h
  rw [hrecast.store?_of_consts_nil hconsts hload] at hstore
  cases hstore

/-- **Beyond the bounds.** A transformer without rules and options does not succeed for all units
    that are loaded: storing fails where the address of the line table wraps around, and where the
    code is a byte too long. -/
theorem not_normalized :
    ((∀ u, Relation.ReflTransGen (Loads .legacy) (Routine.detouring 16843007) u →
        ∃ c, Routine.load? u .legacy = .ok c ∧ c.signature.varnames.Nodup) ∧
      ∀ result, (({ rules := {}, world := { state := () } } : Transformer Unit).transformUnit
        (Routine.detouring 16843007) .legacy).1 ≠ .ok result) ∧
    (∀ u, Relation.ReflTransGen (Loads .legacy) (Routine.idle UInt32.size) u →
        ∃ c, Routine.load? u .legacy = .ok c ∧ c.signature.varnames.Nodup) ∧
      ∀ result, (({ rules := {}, world := { state := () } } : Transformer Unit).transformUnit
        (Routine.idle UInt32.size) .legacy).1 ≠ .ok result := by
  constructor
  · exact ⟨forall_loads_of_consts_nil rfl Routine.load?_detouring (by decide),
      fun _ => transformUnit_ne_ok rfl rfl rfl Routine.load?_detouring Routine.store?_crossed⟩
  · obtain ⟨c, hload, hsignature⟩ := Routine.exists_load_idle (n := UInt32.size) (by decide)
    obtain ⟨size, -, hstore⟩ := Routine.store?_of_load_of_size_le hload (Routine.length_idle _).ge
    have hnames : c.signature.varnames.Nodup := by
      rw [hsignature]
      decide
    exact ⟨forall_loads_of_consts_nil rfl hload hnames,
      fun _ => transformUnit_ne_ok rfl rfl rfl hload hstore⟩

end Transformer

end StackCode

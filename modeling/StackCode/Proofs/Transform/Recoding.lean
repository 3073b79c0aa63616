import StackCode.Proofs.Transform.Recasting

namespace StackCode

/-!
# Units in another encoding

A transformer without rules that is asked for an encoding stores a unit and all units that it loads,
at whatever depth, in that encoding.  Units that are items of tuples are not among them.

* `LoadsBoth` — two units load two others at the same instruction, each under its own encoding.
* `Transformer.recodes_of_transformUnit` — the units that are loaded below the result are in the
  target encoding, with the opcodes that they had; all other constants are what they were.
-/

/-! ### Units side by side -/

/-- At some instruction, the first unit of `pair` loads the first one of `pair'` under `src`, and
    the second one loads the second one under `dst`. -/
def LoadsBoth (src dst : Encoding) (pair pair' : StoredUnit × StoredUnit) : Prop :=
  ∃ (c c' : Routine) (k : Nat), Routine.load? pair.1 src = .ok c ∧
    Routine.load? pair.2 dst = .ok c' ∧
      c.operands[k]? = some (.const (.code pair'.1)) ∧
      c'.operands[k]? = some (.const (.code pair'.2))

namespace Recast

variable {src dst : Encoding} {unit result : StoredUnit}

/-- A unit with distinct parameters that was recast is loaded under its new encoding.  Its operands
    are what they were, but for units, which are recast. -/
theorem exists_load (h : Recast src dst unit result)
    (hnames : ∀ c, Routine.load? unit src = .ok c → c.signature.varnames.Nodup) :
    ∃ c c' f, Routine.load? unit src = .ok c ∧ Routine.load? result dst = .ok c' ∧
      c'.opcodes = c.opcodes ∧ result.consts = (c.mapUnits f).consts ∧
      (∀ u, .const (.code u) ∈ c.operands → Recast src dst u (f u)) ∧
      ∀ (k : Nat) (x : Const), c'.operands[k]? = some (.const x) ↔
        (c.operands[k]?).map (Operand.mapUnit f) = some (.const x) := by
  obtain ⟨hload, hunits, hstore⟩ := h
  rename_i c f
  obtain ⟨c', hload', halike, -⟩ :=
    Routine.exists_reload (Routine.load?_mapUnits (f := f) hload) (hnames c hload) hstore
  obtain ⟨code, lineTable, -, -, -, rfl⟩ := Routine.store?_eq_ok.1 hstore
  refine ⟨c, c', f, hload, hload', ?_, rfl, hunits, fun k x => ?_⟩
  · rw [← Body.opcodes_of_shape halike.shape, Routine.opcodes_mapUnits]
  · rw [← halike.getElem?_operands, Routine.operands_mapUnits, List.getElem?_map]

/-- Units that are loaded side by side are recast like those that load them. -/
theorem of_loadsBoth {u u' : StoredUnit} (h : Recast src dst unit result)
    (hnames : ∀ c, Routine.load? unit src = .ok c → c.signature.varnames.Nodup)
    (hboth : LoadsBoth src dst (unit, result) (u, u')) : Recast src dst u u' := by
  obtain ⟨c, c', f, hload, hload', -, -, hunits, hoperands⟩ := h.exists_load hnames
  obtain ⟨d, d', k, hd, hd', hu, hu'⟩ := hboth
  obtain rfl : c = d := Except.ok.inj (hload.symm.trans hd)
  obtain rfl : c' = d' := Except.ok.inj (hload'.symm.trans hd')
  have hmapped := (hoperands k _).1 hu'
  rw [hu] at hmapped
  have hsame : f u = u' := Const.code.inj (Operand.const.inj (Option.some.inj hmapped))
  exact hsame ▸ hunits u (List.mem_of_getElem? hu)

/-- The constants of a unit that was recast are units that it loads, and others that the unit it
    comes from has as well. -/
theorem consts_eq (h : Recast src dst unit result)
    (hnames : ∀ c, Routine.load? unit src = .ok c → c.signature.varnames.Nodup) {x : Const}
    (hx : x ∈ result.consts) :
    (∃ u u', x = .code u' ∧ LoadsBoth src dst (unit, result) (u, u')) ∨
      x.code? = none ∧ x ∈ unit.consts := by
  obtain ⟨c, c', f, hload, hload', -, hconsts, -, hoperands⟩ := h.exists_load hnames
  rw [hconsts, Body.mem_consts, Routine.operands_mapUnits] at hx
  obtain ⟨o, ho, hmapped⟩ := List.mem_map.1 hx
  rcases Operand.mapUnit_eq_const hmapped with ⟨u, rfl, rfl⟩ | ⟨hnone, rfl⟩
  · obtain ⟨k, hk⟩ := List.mem_iff_getElem?.1 ho
    have hk' : c'.operands[k]? = some (.const (.code (f u))) := by
      rw [hoperands, hk]
      rfl
    exact .inl ⟨u, f u, rfl, c, c', k, hload, hload', hk, hk'⟩
  · exact .inr ⟨hnone, Routine.consts_subset_of_load hload (Body.mem_consts.2 ho)⟩

end Recast

/-- What is loaded side by side is loaded on the one side. -/
theorem LoadsBoth.loads {src dst : Encoding} {pair pair' : StoredUnit × StoredUnit}
    (h : LoadsBoth src dst pair pair') : Loads src pair.1 pair'.1 := by
  obtain ⟨c, -, k, hload, -, hu, -⟩ := h
  exact ⟨c, hload, List.mem_of_getElem? hu⟩

namespace Transformer

variable {σ : Type} {t : Transformer σ} {stored result : StoredUnit} {src dst : Encoding}

/-- **Encodings of a tree.** Let a transformer without rules be asked for an encoding and succeed
    for a unit, all of whose loaded units have distinct parameters.  Then each unit that is loaded
    below the result, at whatever depth, is loaded under that encoding, with the opcodes of the unit
    that it comes from.  Its constants are units that it loads, and other constants of the unit that
    it comes from.  Tuples are among those others, so that units in them keep their encoding. -/
theorem recodes_of_transformUnit (hrules : t.rules = {}) (hoptimizer : t.options.optimizer = none)
    (hencoding : t.options.encoding = some dst)
    (hnames : ∀ unit, Relation.ReflTransGen (Loads src) stored unit →
      ∀ c, Routine.load? unit src = .ok c → c.signature.varnames.Nodup)
    (h : (t.transformUnit stored src).1 = .ok result) :
    ∀ u u', Relation.ReflTransGen (LoadsBoth src dst) (stored, result) (u, u') →
      (∃ c c', Routine.load? u src = .ok c ∧ Routine.load? u' dst = .ok c' ∧
        c'.opcodes = c.opcodes) ∧
      ∀ x ∈ u'.consts, (∃ v v', x = .code v' ∧ LoadsBoth src dst (u, u') (v, v')) ∨
        x.code? = none ∧ x ∈ u.consts := by
  have hroot : Recast src dst stored result := by
    have hrecast := (transformUnit_eq_ok hrules hoptimizer).1 h
    rwa [hencoding, Option.getD_some] at hrecast
  intro u u' hreach
  -- Down the tree, units stay recast, and those on the source side stay loaded.
  have hkept : ∀ pair, Relation.ReflTransGen (LoadsBoth src dst) (stored, result) pair →
      Recast src dst pair.1 pair.2 ∧ Relation.ReflTransGen (Loads src) stored pair.1 := by
    intro pair hpair
    induction hpair with
    | refl => exact ⟨hroot, .refl⟩
    | tail _ hboth ih => exact ⟨ih.1.of_loadsBoth (hnames _ ih.2) hboth, ih.2.tail hboth.loads⟩
  obtain ⟨hrecast, hloads⟩ := hkept (u, u') hreach
  obtain ⟨c, c', f, hload, hload', hopcodes, -⟩ := hrecast.exists_load (hnames u hloads)
  exact ⟨⟨c, c', hload, hload', hopcodes⟩, fun x hx => hrecast.consts_eq (hnames u hloads) hx⟩

/-- A transformer without rules that stores in the old encoding. -/
def toLegacy : Transformer Unit where
  rules := {}
  options := { encoding := some .legacy }
  world := { state := () }

/-- A unit that loads another one, and a tuple with the same one in it. -/
def sharing : StoredUnit where
  stacksize := 1
  flags := 67
  code := [100, 0, 1, 0, 100, 1, 83, 0]
  consts := [.code (returningOne 0), .tuple [.code (returningOne 0)]]
  name := "sharing"

/-- A unit that loads another one comes out under the other encoding with the same opcodes. -/
theorem recodes_of_transformUnit_sharing :
    ∃ result c c', (toLegacy.transformUnit sharing .wordcode).1 = .ok result ∧
      Routine.load? sharing .wordcode = .ok c ∧ Routine.load? result .legacy = .ok c' ∧
      c'.opcodes = c.opcodes := by
  have hclosed : ∀ unit ∈ [sharing, returningOne 0],
      ∃ c ∈ (Routine.load? unit .wordcode).toOption, c.signature.varnames.Nodup ∧
        ∀ x ∈ c.consts, ∀ u ∈ x.code?, u ∈ [sharing, returningOne 0] := by
    decide +kernel
  have hloads := forall_loads_of_closed hclosed List.mem_cons_self
  have hrun : (toLegacy.transformUnit sharing .wordcode).1.isOk = true := by decide +kernel
  obtain ⟨result, hresult⟩ := exists_of_isOk hrun
  have hrecodes := recodes_of_transformUnit rfl rfl rfl (fun unit hunit c hload => ?_) hresult
  · obtain ⟨⟨c, c', hload, hload', hopcodes⟩, -⟩ := hrecodes sharing result .refl
    exact ⟨result, c, c', hresult, hload, hload', hopcodes⟩
  · obtain ⟨-, c', hload', hnames⟩ := hloads unit hunit
    obtain rfl : c = c' := Except.ok.inj (hload.symm.trans hload')
    exact hnames

/-- A unit in a tuple stays in the encoding that it has, and is not loaded under the new one. -/
theorem not_recoded_in_tuple :
    (Routine.load? sharing .wordcode).isOk = true ∧
      (Routine.load? (returningOne 0) .wordcode).isOk = true ∧
      ∃ result, (toLegacy.transformUnit sharing .wordcode).1 = .ok result ∧
        .tuple [.code (returningOne 0)] ∈ result.consts ∧
        (Routine.load? (returningOne 0) .legacy).isOk = false := by
  have hrun : ∃ result ∈ (toLegacy.transformUnit sharing .wordcode).1.toOption,
      .tuple [.code (returningOne 0)] ∈ result.consts := by decide +kernel
  obtain ⟨result, hresult, hmem⟩ := hrun
  refine ⟨by decide +kernel, by decide +kernel, result, eq_ok_of_toOption hresult, hmem, ?_⟩
  decide +kernel

end Transformer

end StackCode

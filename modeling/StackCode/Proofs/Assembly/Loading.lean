import StackCode.Proofs.Assembly.Labels

namespace StackCode

/-!
# Loading what was assembled

Bytes and lines of a stored unit are read back without fail.  What may be missing is names for the
parameters: a name that is given twice is counted twice by the unit, and stands in its table once.

* `StoredUnit.parameters` — the number of names that the counts and flags of a unit ask for.
* `Routine.load?_of_store` — a stored unit is loaded if it has as many names as parameters, and only
  then.
* `Routine.parameters_le` — it has, when no parameter is named twice.
* `Assembly.loads_of_assemble` — both for assembled routines, whose flags are derived.
-/

/-! ### Parameters of units -/

namespace StoredUnit

variable {unit : StoredUnit}

/-- The number of names that the counts and flags of the unit ask for. -/
def parameters (unit : StoredUnit) : Nat :=
  let one := fun f : Flag => if (⟨unit.flags⟩ : Flags).has f then 1 else 0
  unit.argcount.toNat + unit.kwonlyargcount.toNat + one .varargs + one .varKeywords

/-- A unit with enough names has parameters. -/
theorem exists_signature (h : unit.parameters ≤ unit.varnames.length) :
    ∃ signature, Signature.ofLayout? unit.argcount.toNat unit.kwonlyargcount.toNat ⟨unit.flags⟩
      unit.varnames = .ok signature :=
  ⟨_, if_neg (Nat.not_lt.2 h)⟩

/-- A unit with too few names has none, and the fault tells both numbers. -/
theorem ofLayout?_eq_error (h : unit.varnames.length < unit.parameters) :
    Signature.ofLayout? unit.argcount.toNat unit.kwonlyargcount.toNat ⟨unit.flags⟩ unit.varnames =
      .error ⟨unit.parameters, unit.varnames.length⟩ := if_pos h

end StoredUnit

/-- A signature has a name for each parameter and for each surplus. -/
theorem Signature.length_varnames (sig : Signature) : sig.varnames.length =
    sig.positional.length + sig.kwonly.length + (if sig.varargs.isSome then 1 else 0) +
      if sig.varkw.isSome then 1 else 0 := by
  have htoList : ∀ o : Option String, o.toList.length = if o.isSome then 1 else 0 := by
    intro o
    cases o <;> rfl
  simp only [varnames, List.length_append, htoList]

/-! ### Stored routines -/

namespace Routine

variable {c : Routine} {raw : StoredUnit} {e : Encoding}

/-- **Loading what was stored.** The bytes and the lines of a stored unit are always read; whether
    it is loaded is up to its parameters. -/
theorem load?_of_store (hc : c.Sound) (h : c.store? { encoding := some e } = .ok raw) :
    (raw.parameters ≤ raw.varnames.length →
      ∃ c', load? raw e = .ok c' ∧ c'.opcodes = c.opcodes) ∧
    (raw.varnames.length < raw.parameters →
      load? raw e = .error (.argumentLayout ⟨raw.parameters, raw.varnames.length⟩)) := by
  obtain ⟨walked, hrep⟩ := represents_of_store hc h
  obtain ⟨lines, hread, -⟩ := readLines_of_store hc h hrep c.signature
  have hload := load?_of_represents hrep
  rw [hread] at hload
  constructor
  · intro hle
    obtain ⟨signature, hsignature⟩ := StoredUnit.exists_signature hle
    rw [hsignature] at hload
    refine ⟨_, hload, ?_⟩
    -- The loaded routine has the shape of the stored one.
    rw [← Body.opcodes_shape, shape_loaded hrep, Body.opcodes_shape]
  · intro hlt
    rw [StoredUnit.ofLayout?_eq_error hlt] at hload
    exact hload

/-- The names of a stored unit start with the parameters, if no two of them are the same.  Counts
    that outgrow their fields ask for fewer names. -/
theorem parameters_le (hnames : c.signature.varnames.Nodup)
    (hflags : c.flags.has .varargs = c.signature.varargs.isSome ∧
      c.flags.has .varKeywords = c.signature.varkw.isSome)
    (h : c.store? { encoding := some e } = .ok raw) : raw.parameters ≤ raw.varnames.length := by
  obtain ⟨code, lineTable, -, -, -, rfl⟩ := store?_eq_ok.1 h
  obtain ⟨others, hvarnames⟩ := Body.varnames_eq hnames
  show (UInt32.ofNat c.signature.positional.length).toNat +
      (UInt32.ofNat c.signature.kwonly.length).toNat + (if c.flags.has .varargs then 1 else 0) +
      (if c.flags.has .varKeywords then 1 else 0) ≤ c.varnames.length
  rw [hvarnames, List.length_append, Signature.length_varnames, hflags.1, hflags.2,
    UInt32.toNat_ofNat', UInt32.toNat_ofNat']
  have hpositional := Nat.mod_le c.signature.positional.length (2 ^ 32)
  have hkwonly := Nat.mod_le c.signature.kwonly.length (2 ^ 32)
  omega

end Routine

/-! ### Flags of bodies -/

/-- Derived flags tell whether surplus arguments are taken. -/
theorem Body.has_derivedFlags (b : Body) :
    b.derivedFlags.has .varargs = b.signature.varargs.isSome ∧
      b.derivedFlags.has .varKeywords = b.signature.varkw.isSome := by
  unfold Body.derivedFlags
  generalize b.signature.varargs.isSome = varargs
  generalize b.signature.varkw.isSome = varkw
  generalize b.opcodes.any Opcode.isYield = yields
  generalize b.opcodes.any Opcode.usesFree = free
  revert varargs varkw yields free
  decide

/-! ### Assembled routines -/

namespace Assembly

/-- The flags of an assembled routine are derived. -/
theorem flags_of_assemble {source : String} {c : Routine} (h : assemble? source = .ok c) :
    c.flags = c.derivedFlags := by
  obtain ⟨s, pushed, hfollows, -, -, hmade⟩ := exists_follows h
  obtain ⟨_, -, hc⟩ := bind_eq_ok.1 hmade
  cases hc
  show s.builder.draft.flags.getD _ = _
  rw [hfollows.flags]
  rfl

/-- **Loading what was assembled.** The stored unit of an assembled routine is loaded with the same
    opcodes if it has as many names as parameters, and not otherwise.  It has when no parameter is
    named twice. -/
theorem loads_of_assemble {source : String} {c : Routine} {raw : StoredUnit}
    (h : assemble? source = .ok c) (hstore : c.store? {} = .ok raw) :
    (raw.parameters ≤ raw.varnames.length →
      ∃ c', Routine.load? raw c.encoding = .ok c' ∧ c'.opcodes = c.opcodes) ∧
    (raw.varnames.length < raw.parameters → Routine.load? raw c.encoding =
      .error (.argumentLayout ⟨raw.parameters, raw.varnames.length⟩)) ∧
    (c.signature.varnames.Nodup → raw.parameters ≤ raw.varnames.length) := by
  have hplain : c.store? { encoding := some c.encoding } = .ok raw := hstore
  obtain ⟨hloads, hfails⟩ := Routine.load?_of_store (sound_of_assemble h) hplain
  refine ⟨hloads, hfails, fun hnames => Routine.parameters_le hnames ?_ hplain⟩
  rw [flags_of_assemble h]
  exact c.has_derivedFlags

/-- A parameter and surplus arguments take a name each, so that this unit is loaded. -/
theorem loads_of_assemble_surplus : ∃ c raw c',
    assemble? ".args a, *b\nRETURN_VALUE\n" = .ok c ∧ c.store? {} = .ok raw ∧
      raw.parameters = 2 ∧ Routine.load? raw c.encoding = .ok c' ∧ c'.opcodes = c.opcodes := by
  have hunit : (assemble? ".args a, *b\nRETURN_VALUE\n").toOption.bind (fun c =>
      (c.store? {}).toOption.map fun raw => (c.signature.varnames, raw.parameters)) =
      some (["a", "b"], 2) := by decide +kernel
  obtain ⟨c, hc, hunit⟩ := Option.bind_eq_some_iff.1 hunit
  obtain ⟨raw, hraw, hunit⟩ := Option.map_eq_some_iff.1 hunit
  obtain ⟨hnames, hparameters⟩ := Prod.mk.inj hunit
  have hc := eq_ok_of_toOption hc
  have hraw := eq_ok_of_toOption hraw
  obtain ⟨hloads, -, hfew⟩ := loads_of_assemble hc hraw
  obtain ⟨c', hload, hopcodes⟩ := hloads (hfew (hnames ▸ by decide))
  exact ⟨c, raw, c', hc, hraw, hparameters, hload, hopcodes⟩

/-- A parameter that is named twice is counted twice, and has one name in the unit. -/
theorem not_loaded_repeated : ∃ c raw,
    assemble? ".args a, a\nLOAD_CONST None\nRETURN_VALUE\n" = .ok c ∧ c.store? {} = .ok raw ∧
      Routine.load? raw c.encoding = .error (.argumentLayout ⟨2, 1⟩) := by
  have hunit : (assemble? ".args a, a\nLOAD_CONST None\nRETURN_VALUE\n").toOption.bind (fun c =>
      (c.store? {}).toOption.map fun raw => Routine.load? raw c.encoding) =
      some (.error (.argumentLayout ⟨2, 1⟩)) := by decide +kernel
  obtain ⟨c, hc, hunit⟩ := Option.bind_eq_some_iff.1 hunit
  obtain ⟨raw, hraw, hunit⟩ := Option.map_eq_some_iff.1 hunit
  exact ⟨c, raw, eq_ok_of_toOption hc, eq_ok_of_toOption hraw, hunit⟩

end Assembly

end StackCode

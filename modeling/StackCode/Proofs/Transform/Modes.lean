import StackCode.Proofs.Transform.Agreement
import StackCode.Proofs.Transform.Jumps

namespace StackCode

/-!
# Modes

A mode belongs to one pass.  The pass starts in the default mode, and its end gives the modes back
as they were.

* `Transformer.Call` — what is done with a transformer; `Transformer.after` does several calls.
* `Transformer.fst_transform_of_blind` — results do not depend on what earlier calls have left, when
  no handler reads the user state.
* `Transformer.modes_of_transform` — the scope of modes, in passes, nested passes and calls.
-/

variable {σ : Type}

/-! ### Calls -/

namespace Transformer

/-- What is done with a transformer. -/
inductive Call (σ : Type) where
  | transform (c : Routine) (o : Overrides)
  | transformUnit (stored : StoredUnit) (e : Encoding)
  | setState (s : σ)

/-- What a call leaves of the transformer, with whatever result. -/
def Call.run (t : Transformer σ) : Call σ → Transformer σ
  | .transform c o => (t.transform c o).2
  | .transformUnit stored e => (t.transformUnit stored e).2
  | .setState s => { t with world := { t.world with state := s } }

/-- The transformer after several calls. -/
def after (t : Transformer σ) (calls : List (Call σ)) : Transformer σ := calls.foldl Call.run t

/-- How the units nested in a routine are transformed. -/
abbrev nested (t : Transformer σ) (c : Routine) : NestedTransform σ :=
  Transform.unit t.rules t.options (Const.nestingItems c.consts + handlerDepth)

variable {t : Transformer σ}

/-- Of a transformer, a call changes the world. -/
theorem snd_transform (c : Routine) (o : Overrides) :
    (t.transform c o).2 = { t with
      world := endState ((Transform.pass t.rules t.options (t.nested c) c o).run t.world) } := by
  show (t.transform c o).2 = { t with
    world := endState (Transform.pass t.rules t.options (t.nested c) c o t.world) }
  unfold transform
  dsimp only
  cases Transform.pass t.rules t.options (t.nested c) c o t.world with
  | ok c' world => rfl
  | error e world => rfl

/-- To transform a unit leaves of the transformer what the routine of the unit does, if it has
    one. -/
theorem snd_transformUnit (stored : StoredUnit) (e : Encoding) :
    (t.transformUnit stored e).2 =
      match Routine.load? stored e with
      | .ok c => (t.transform c {}).2
      | .error _ => t := by
  unfold transformUnit
  cases Routine.load? stored e with
  | error err => rfl
  | ok c =>
    dsimp only
    generalize t.transform c {} = r
    obtain ⟨r, t'⟩ := r
    cases r
    · rfl
    · rfl

/-- Calls change nothing of a transformer but its world. -/
theorem exists_world_after (t : Transformer σ) (calls : List (Call σ)) :
    ∃ world, t.after calls = { t with world := world } := by
  unfold after
  induction calls generalizing t with
  | nil => exact ⟨t.world, rfl⟩
  | cons call rest ih =>
    have hcall : ∃ world, call.run t = { t with world := world } := by
      cases call with
      | transform c o => exact ⟨_, snd_transform c o⟩
      | transformUnit stored e =>
        rw [Call.run, snd_transformUnit]
        cases Routine.load? stored e with
        | error err => exact ⟨t.world, rfl⟩
        | ok c => exact ⟨_, snd_transform c {}⟩
      | setState s => exact ⟨_, rfl⟩
    obtain ⟨world, hworld⟩ := hcall
    obtain ⟨world', hworld'⟩ := ih { t with world := world }
    rw [List.foldl_cons, hworld]
    exact ⟨world', hworld'⟩

/-! ### Results -/

/-- **Results.** When no handler reads the user state, the result of a call does not depend on the
    world that it finds. -/
theorem fst_transform_of_blind
    (hblind : ∀ rule ∈ t.rules.rules, ∀ matched, (rule.handler matched).Blind) (world : World σ)
    (c : Routine) (o : Overrides) :
    (({ t with world := world } : Transformer σ).transform c o).1 = (t.transform c o).1 := by
  have hagree : Agree (fun _ _ => True)
      (Transform.pass t.rules t.options (t.nested c) c o world)
      (Transform.pass t.rules t.options (t.nested c) c o t.world) :=
    Transform.pass_agrees (S := fun _ _ => True) (fun _ => trivial) hblind
      (Transform.keeps_unit _)
      (fun unit e w v => Transform.unit_agrees (fun _ => trivial) hblind _ unit e) c o trivial
  unfold transform
  dsimp only
  generalize Transform.pass t.rules t.options (t.nested c) c o world = r at hagree ⊢
  generalize Transform.pass t.rules t.options (t.nested c) c o t.world = r' at hagree ⊢
  cases hagree with
  | ok h => rfl
  | error h => rfl

/-- With blind handlers, the result of a call does not depend on the world it is made in. -/
theorem fst_transformUnit_of_blind
    (hblind : ∀ rule ∈ t.rules.rules, ∀ matched, (rule.handler matched).Blind) (world : World σ)
    (stored : StoredUnit) (e : Encoding) :
    (({ t with world := world } : Transformer σ).transformUnit stored e).1 =
      (t.transformUnit stored e).1 := by
  unfold transformUnit
  cases Routine.load? stored e with
  | error err => rfl
  | ok c =>
    have hsame := fst_transform_of_blind hblind world c {}
    -- Storing looks at the options, which no pass changes.
    have hoptions : ∀ w : World σ,
        (({ t with world := w } : Transformer σ).transform c {}).2.options = t.options := by
      intro w
      rw [snd_transform]
    have hleft := hoptions world
    have hright := hoptions t.world
    dsimp only at hsame ⊢
    generalize ({ t with world := world } : Transformer σ).transform c {} = r at hsame hleft ⊢
    generalize t.transform c {} = r' at hsame hright ⊢
    obtain ⟨r, t₁⟩ := r
    obtain ⟨r', t₂⟩ := r'
    cases hsame
    cases r with
    | error err => rfl
    | ok out =>
      dsimp only at hleft hright ⊢
      rw [hleft, hright]

/-! ### The scope of modes -/

/-- A call over a routine leaves the modes as they were, whether it fails or not. -/
theorem modes_transform (c : Routine) (o : Overrides) :
    (t.transform c o).2.world.modes = t.world.modes := by
  rw [snd_transform]
  exact Transform.keeps_pass (Transform.keeps_unit _) c o t.world

/-- A call over a unit leaves the modes as they were, whether it fails or not. -/
theorem modes_transformUnit (stored : StoredUnit) (e : Encoding) :
    (t.transformUnit stored e).2.world.modes = t.world.modes := by
  rw [snd_transformUnit]
  cases Routine.load? stored e with
  | error err => rfl
  | ok c => exact modes_transform c {}

/-- **Modes.** They belong to one pass.
    A pass starts in the default mode and is still in it when it has transformed the nested units,
    and its result does not depend on the modes around it.  A nested pass leaves the mode of the
    pass around it, whichever way it ends.  So does a call with all modes.  When no handler reads
    the user state, the result of a call does not depend on earlier calls. -/
theorem modes_of_transform (t : Transformer σ) :
    (∀ c world, (Transform.start t.options c world).mode = {} ∧
      ∀ depth p, (Pass.nestedPhase (Transform.unit t.rules t.options depth) c.encoding []
        c.instrs).run (Transform.start t.options c world) = .ok () p → p.mode = {}) ∧
    (∀ depth c o world outside, Agree (fun w v => w.state = v.state)
      ((Transform.pass t.rules t.options (Transform.unit t.rules t.options depth) c o).run world)
      ((Transform.pass t.rules t.options (Transform.unit t.rules t.options depth) c o).run
        { world with modes := outside })) ∧
    (∀ depth stored e (p : Pass σ),
      (p.onWorld (Transform.unit t.rules t.options depth stored e)).2.world.modes = p.world.modes ∧
      (p.onWorld (Transform.unit t.rules t.options depth stored e)).2.mode = p.mode) ∧
    (∀ c o, (t.transform c o).2.world.modes = t.world.modes) ∧
    (∀ stored e, (t.transformUnit stored e).2.world.modes = t.world.modes) ∧
    ((∀ rule ∈ t.rules.rules, ∀ matched, (rule.handler matched).Blind) → ∀ calls,
      (∀ c o, ((t.after calls).transform c o).1 = (t.transform c o).1) ∧
      ∀ stored e, ((t.after calls).transformUnit stored e).1 = (t.transformUnit stored e).1) := by
  refine ⟨fun c world => ⟨rfl, fun depth p h => ?_⟩, fun depth c o world outside => ?_,
    fun depth stored e p => ?_, modes_transform, modes_transformUnit, fun hblind calls => ?_⟩
  · -- The nested passes have given back the mode that the pass has entered.
    have hmodes : p.world.modes = (Transform.start t.options c world).world.modes :=
      (Pass.keeps_nestedPhase (Transform.keeps_unit depth) c.encoding c.instrs []).eq_of_run h
    exact congrArg ModeStack.current hmodes
  · -- A relation that holds of equal states only asks nothing of the scripts.
    exact Transform.pass_agrees (fun _ => rfl) (fun _ _ _ => Script.respects_eq _)
      (Transform.keeps_unit depth)
      (fun unit e _ _ => Transform.unit_agrees (fun _ => rfl)
        (fun _ _ _ => Script.respects_eq _) depth unit e) c o rfl
  · have hmodes : (p.onWorld (Transform.unit t.rules t.options depth stored e)).2.world.modes =
        p.world.modes := by
      rw [Pass.world_onWorld]
      exact Transform.keeps_unit depth stored e p.world
    exact ⟨hmodes, congrArg ModeStack.current hmodes⟩
  · obtain ⟨world, hworld⟩ := exists_world_after t calls
    rw [hworld]
    exact ⟨fst_transform_of_blind hblind world, fst_transformUnit_of_blind hblind world⟩

/-- Switches to mode `1` where a value is doubled, and refuses to drop values there. -/
def refusing : Transformer Nat where
  rules := { rules := [{
    name := "enter"
    pattern := .op .dupTop
    matcher := .cls (· = .dupTop)
    compiled := rfl
    modes := [{}]
    handler := fun matched => .begin ⟨1⟩ (.setState 5 (.done matched)) }, {
    name := "refuse"
    pattern := .op .popTop
    matcher := .cls (· = .popTop)
    compiled := rfl
    modes := [⟨1⟩]
    handler := fun _ => .fail (.handler "refused") }] }
  world := { state := 0 }

/-- A routine without operands. -/
def plain (ops : List Opcode) : Routine where
  pool := .ofInstrs (ops.map fun op => ⟨op, .none⟩)
  instrs := List.range ops.length
  flags := .ofList [.optimized, .newLocals, .noFree]

/-- The first call fails in mode `1`.  Its state stays and its mode does not, so that values are
    dropped again in the next call. -/
theorem modes_of_transform_refusing :
    (refusing.transform (plain [.dupTop, .popTop]) {}).1 = .error (.handler "refused") ∧
      (refusing.transform (plain [.dupTop, .popTop]) {}).2.world = { state := 5 } ∧
      ((refusing.after [.transform (plain [.dupTop, .popTop]) {}]).transform (plain [.popTop])
        {}).1 = (refusing.transform (plain [.popTop]) {}).1 ∧
      (refusing.transform (plain [.popTop]) {}).1.isOk = true := by
  have hblind : ∀ rule ∈ refusing.rules.rules, ∀ matched, (rule.handler matched).Blind := by
    intro rule hrule matched
    rcases List.mem_pair.1 hrule with rfl | rfl
    · trivial
    · trivial
  obtain ⟨-, -, -, -, -, hsame⟩ := modes_of_transform refusing
  refine ⟨by decide +kernel, by decide +kernel, ?_, by decide +kernel⟩
  exact (hsame hblind [.transform (plain [.dupTop, .popTop]) {}]).1 (plain [.popTop]) {}

end Transformer

end StackCode

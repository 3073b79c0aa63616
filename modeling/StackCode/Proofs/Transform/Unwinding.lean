import StackCode.Transform

namespace StackCode

/-!
# Unwinding

What is left of a pass when it ends, with a result or with an error: the modes of the passes around
it are as they were.

* `Keeps` — actions that leave an observation of the state as it was, also when they fail.
* `Script.keeps_run` — a script does not touch the modes outside of its pass.
* `Transform.keeps_unit` — a nested pass leaves all modes as they were.
-/

/-! ### Actions that keep an observation -/

section

variable {ε σ α β γ : Type}

/-- The state in which an action ends, with a result or with an error. -/
def endState : EStateM.Result ε σ α → σ
  | .ok _ s => s
  | .error _ s => s

/-- The action leaves the observation `f` of the state as it was, whichever way it ends. -/
def Keeps (f : σ → γ) (x : EStateM ε σ α) : Prop := ∀ s, f (endState (x.run s)) = f s

variable {f : σ → γ}

/-- To give back a value changes nothing. -/
theorem keeps_pure (a : α) : Keeps f (pure a : EStateM ε σ α) := fun _ => rfl

/-- Nor does an error. -/
theorem keeps_throw (e : ε) : Keeps f (throw e : EStateM ε σ α) := fun _ => rfl

/-- Nor does looking at the state. -/
theorem keeps_get : Keeps f (get : EStateM ε σ σ) := fun _ => rfl

/-- A change that does not touch what is kept keeps it. -/
theorem keeps_modify {g : σ → σ} (h : ∀ s, f (g s) = f s) :
    Keeps f (modify g : EStateM ε σ PUnit) := h

/-- What both parts keep is kept, whether the first fails or not. -/
theorem keeps_bind {x : EStateM ε σ α} {k : α → EStateM ε σ β} (hx : Keeps f x)
    (hk : ∀ a, Keeps f (k a)) : Keeps f (x >>= k) := by
  intro s
  have hrun := hx s
  rw [EStateM.run_bind]
  cases hresult : x.run s with
  | ok a s' =>
    rw [hresult] at hrun
    exact (hk a s').trans hrun
  | error e s' =>
    rw [hresult] at hrun
    exact hrun

/-- What is seen of a kept observation is kept. -/
theorem Keeps.map {δ : Type} {x : EStateM ε σ α} (h : Keeps f x) (g : γ → δ) :
    Keeps (fun s => g (f s)) x :=
  fun s => congrArg g (h s)

/-- An action that succeeds leaves what it keeps. -/
theorem Keeps.eq_of_run {x : EStateM ε σ α} {a : α} {s s' : σ} (h : Keeps f x)
    (hrun : x.run s = .ok a s') : f s' = f s := by
  have hkept := h s
  rwa [hrun] at hkept

end

variable {σ γ : Type}

/-! ### Passes keep modes -/

namespace Pass

variable {α : Type} {inner : NestedTransform σ} {rules : RuleSet σ}

/-- Actions on the pool leave the world alone. -/
theorem world_onPool (act : PoolM α) (p : Pass σ) : (p.onPool act).2.world = p.world := by
  unfold onPool
  split <;> rfl

/-- The world behind an action of the transformer is what the action leaves, errors included. -/
theorem world_onWorld (act : TransformM σ α) (p : Pass σ) :
    (p.onWorld act).2.world = endState (act.run p.world) := by
  unfold onWorld
  cases act.run p.world <;> rfl

/-- Actions on the pool keep the world. -/
theorem keeps_liftPool (act : PoolM α) : Keeps (·.world) (liftPool act : PassM σ α) := by
  intro p
  have hworld := world_onPool act p
  show (endState (liftPool act p)).world = p.world
  unfold liftPool
  split
  · rename_i hrun
    rwa [hrun] at hworld
  · rename_i hrun
    rwa [hrun] at hworld

/-- A pass keeps what actions of the transformer keep. -/
theorem keeps_liftWorld {f : World σ → γ} {act : TransformM σ α} (h : Keeps f act) :
    Keeps (fun p => f p.world) (liftWorld act) := by
  intro p
  have hkept : f (p.onWorld act).2.world = f p.world := by
    rw [world_onWorld]
    exact h p.world
  show f (endState (liftWorld act p)).world = f p.world
  unfold liftWorld
  split
  · rename_i hrun
    rwa [hrun] at hkept
  · rename_i hrun
    rwa [hrun] at hkept

/-- The phase of nested units keeps of the world what nested passes keep. -/
theorem keeps_nestedPhase {f : World σ → γ} (h : ∀ unit e, Keeps f (inner unit e))
    (source : Encoding) (ids : List Handle) (known : List (StoredUnit × StoredUnit)) :
    Keeps (fun p => f p.world) (nestedPhase inner source known ids) := by
  -- Replacing operands is the business of the pool alone.
  have hreplace : ∀ id result, Keeps (fun p : Pass σ => f p.world)
      (liftPool (Pool.replace id (.const (.code result)))) :=
    fun id result => (keeps_liftPool _).map f
  induction ids generalizing known with
  | nil => exact keeps_pure ()
  | cons id rest ih =>
    rw [nestedPhase]
    refine keeps_bind keeps_get fun p => ?_
    cases loadedUnit? p.draft.pool id with
    | none => exact ih known
    | some unit =>
      dsimp only
      cases known.lookup unit with
      | some result => exact keeps_bind (hreplace id result) fun _ => ih known
      | none =>
        refine keeps_bind (keeps_liftWorld (h unit source)) fun result => ?_
        exact keeps_bind (hreplace id result) fun _ => ih _

end Pass

/-- **Scripts.** When nested passes keep all modes, a script keeps those outside of its pass,
    however often it switches its own mode and wherever it fails. -/
theorem Script.keeps_run {inner : NestedTransform σ}
    (h : ∀ unit e, Keeps World.modes (inner unit e)) (s : Script σ) :
    Keeps (fun p : Pass σ => p.world.modes.leave) (s.run inner) := by
  intro p
  induction s generalizing p with
  | done out => rfl
  | fail e => rfl
  | look k ih => exact ih p.view p
  | emit i k ih =>
    have hrest := ih (p.onPool (Pool.insert i)).1 (p.onPool (Pool.insert i)).2
    dsimp only at hrest
    rwa [Pass.world_onPool] at hrest
  | steal thief victim k ih =>
    have hrest := ih (p.onPool (Pool.steal thief victim)).1 (p.onPool (Pool.steal thief victim)).2
    dsimp only at hrest
    rwa [Pass.world_onPool] at hrest
  | setLine id line k ih => exact ih (p.setLine id line)
  | begin m k ih =>
    -- A mode that is begun stands in the place of the pass itself, and is left with it.
    have hrest := ih { p with world := { p.world with modes := p.world.modes.begin m } }
    dsimp only at hrest
    rwa [ModeStack.leave_begin] at hrest
  | setState state k ih => exact ih { p with world := { p.world with state := state } }
  | nested unit k ih =>
    have hrest := ih (p.onWorld (inner unit p.draft.encoding)).1
      (p.onWorld (inner unit p.draft.encoding)).2
    dsimp only at hrest
    rwa [Pass.world_onWorld, h unit p.draft.encoding p.world] at hrest

namespace Pass

variable {inner : NestedTransform σ} {rules : RuleSet σ}

/-- A scan keeps the modes around it, although it may begin others in its own frame. -/
theorem keeps_scan (h : ∀ unit e, Keeps World.modes (inner unit e))
    (code : List (Handle × Opcode)) :
    Keeps (fun p : Pass σ => p.world.modes.leave) (scan rules inner code) := by
  -- The induction is on the length of what is left to go over.
  induction hlen : code.length using Nat.strongRecOn generalizing code with
  | ind n ih =>
    cases code with
    | nil =>
      rw [scan]
      exact keeps_pure []
    | cons entry rest =>
      obtain ⟨id, o⟩ := entry
      rw [List.length_cons] at hlen
      rw [scan]
      refine keeps_bind keeps_get fun p => ?_
      cases rules.firstMatch? p.mode (o :: rest.map (·.2)) with
      | none => exact keeps_bind (ih _ (by omega) rest rfl) fun _ => keeps_pure _
      | some hit =>
        have hshort : (rest.drop (hit.2 - 1)).length < n := by
          rw [List.length_drop]
          omega
        refine keeps_bind (Script.keeps_run h _) fun replacement => ?_
        refine keeps_bind (keeps_modify fun p => rfl) fun _ => ?_
        exact keeps_bind (ih _ hshort _ rfl) fun _ => keeps_pure _

/-- So does what a pass does behind its start. -/
theorem keeps_transformBody (h : ∀ unit e, Keeps World.modes (inner unit e)) (source : Encoding) :
    Keeps (fun p : Pass σ => p.world.modes.leave) (transformBody rules inner source) := by
  refine keeps_bind keeps_get fun p => ?_
  refine keeps_bind ((keeps_nestedPhase h source _ _).map ModeStack.leave) fun _ => ?_
  refine keeps_bind keeps_get fun p => ?_
  exact keeps_bind (keeps_scan h _) fun out => keeps_bind keeps_get fun p => keeps_pure _

end Pass

namespace Transform

variable {rules : RuleSet σ} {options : TransformOptions} {inner : NestedTransform σ}

/-- **Passes.** A pass enters a mode of its own and leaves it in the end, so that all modes are as
    they were. -/
theorem keeps_pass (h : ∀ unit e, Keeps World.modes (inner unit e)) (c : Routine) (o : Overrides) :
    Keeps World.modes (pass rules options inner c o) := by
  intro world
  have hkeeps : Keeps (fun p : Pass σ => p.world.modes.leave)
      (Pass.transformBody rules inner c.encoding) := Pass.keeps_transformBody h c.encoding
  have hbody := hkeeps ⟨{ c.toDraft with encoding := options.encoding.getD c.encoding },
    { world with modes := world.modes.enter }⟩
  show (endState (pass rules options inner c o world)).modes = world.modes
  unfold pass
  dsimp only
  split
  · rename_i e p hresult
    rw [EStateM.run, hresult] at hbody
    exact hbody
  · rename_i d p hresult
    rw [EStateM.run, hresult] at hbody
    split
    · exact hbody
    · exact hbody

/-- A check keeps everything. -/
theorem keeps_lift {ε α : Type} {f : World σ → γ} (wrap : ε → TransformError) (r : Except ε α) :
    Keeps f (lift wrap r : TransformM σ α) := by
  cases r with
  | ok a => exact keeps_pure a
  | error e => exact keeps_throw (wrap e)

/-- **Nested passes.** They leave all modes as they were, at whatever depth. -/
theorem keeps_unit (depth : Nat) (stored : StoredUnit) (e : Encoding) :
    Keeps World.modes (unit rules options depth stored e) := by
  induction depth generalizing stored e with
  | zero => exact keeps_throw _
  | succ depth ih =>
    refine keeps_bind (keeps_lift _ _) fun c => ?_
    exact keeps_bind (keeps_pass ih c _) fun out => keeps_lift _ _

end Transform

end StackCode

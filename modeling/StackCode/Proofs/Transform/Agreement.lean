import StackCode.Proofs.Transform.Firings
import StackCode.Proofs.Transform.Unwinding

namespace StackCode

/-!
# Agreement of passes

Results are compared by running two transformers side by side.  The relation between their worlds is
about user states and about the mode on top, and all actions of a pass keep it.

When two runs of a pass cannot be told apart by their results.

* `Agree` — the same result or the same error, in states that are related.
* `Script.Respects` — a script that goes on in the same way when it looks at related user states;
  `Script.Blind` is a script that does not read the user state at all.
* `Transform.pass_agrees` — passes of such scripts agree from related user states, whatever the
  modes around them are.
-/

/-! ### Results -/

section

variable {ε σ τ α β : Type} {R S : σ → τ → Prop}

/-- The results are the same value or the same error, in states that `R` relates. -/
inductive Agree (R : σ → τ → Prop) : EStateM.Result ε σ α → EStateM.Result ε τ α → Prop where
  | ok {a : α} {s : σ} {t : τ} (h : R s t) : Agree R (.ok a s) (.ok a t)
  | error {e : ε} {s : σ} {t : τ} (h : R s t) : Agree R (.error e s) (.error e t)

/-- Actions agree when their first parts do, and what follows does from related states. -/
theorem Agree.bind {x : EStateM ε σ α} {y : EStateM ε τ α} {f : α → EStateM ε σ β}
    {g : α → EStateM ε τ β} {s : σ} {t : τ} (h : Agree R (x.run s) (y.run t))
    (hk : ∀ a s t, R s t → Agree R ((f a).run s) ((g a).run t)) :
    Agree R ((x >>= f).run s) ((y >>= g).run t) := by
  rw [EStateM.run_bind, EStateM.run_bind]
  generalize x.run s = r at h ⊢
  generalize y.run t = r' at h ⊢
  cases h with
  | ok h => exact hk _ _ _ h
  | error h => exact .error h

/-- Looking at the state is no difference, as long as what follows agrees. -/
theorem Agree.get_bind {f : σ → EStateM ε σ β} {g : τ → EStateM ε τ β} {s : σ} {t : τ}
    (h : Agree R ((f s).run s) ((g t).run t)) :
    Agree R ((get >>= f).run s) ((get >>= g).run t) := h

/-- Results that agree leave related states, errors included. -/
theorem Agree.endState {r : EStateM.Result ε σ α} {r' : EStateM.Result ε τ α} (h : Agree R r r') :
    R (endState r) (endState r') := by
  cases h with
  | ok h => exact h
  | error h => exact h

/-- Results that agree do so in any states that their end states are related by. -/
theorem Agree.imp {r : EStateM.Result ε σ α} {r' : EStateM.Result ε τ α} (h : Agree R r r')
    (hS : S (StackCode.endState r) (StackCode.endState r')) : Agree S r r' := by
  cases h with
  | ok h => exact .ok hS
  | error h => exact .error hS

end

variable {σ : Type} {S : σ → σ → Prop}

/-! ### Passes -/

namespace Pass

variable {α : Type} {W : World σ → World σ → Prop} {inner inner' : NestedTransform σ}
  {rules : RuleSet σ} {p q : Pass σ}

/-- Passes that work on the same draft, in related worlds. -/
structure Like (W : World σ → World σ → Prop) (p q : Pass σ) : Prop where
  draft : p.draft = q.draft
  world : W p.world q.world

/-- Carrying a line on does the same to both drafts. -/
theorem Like.carryLine (h : Like W p q) (matched replacement : List Handle) :
    Like W { p with draft := Pass.carryLine p.draft matched replacement }
      { q with draft := Pass.carryLine q.draft matched replacement } where
  draft := congrArg (Pass.carryLine · matched replacement) h.draft
  world := h.world

/-- An action on the pool has the same result in both passes. -/
theorem Like.onPool (h : Like W p q) (act : PoolM α) :
    (p.onPool act).1 = (q.onPool act).1 ∧ Like W (p.onPool act).2 (q.onPool act).2 := by
  obtain ⟨draft, world⟩ := p
  obtain ⟨draft', world'⟩ := q
  obtain ⟨rfl, hworld⟩ := h
  unfold Pass.onPool
  dsimp only
  cases act.run draft.pool with
  | ok a pool => exact ⟨rfl, rfl, hworld⟩
  | error e pool => exact ⟨rfl, rfl, hworld⟩

/-- Actions of the transformer that agree have the same result in both passes. -/
theorem Like.onWorld {act act' : TransformM σ α} (h : Like W p q)
    (hact : Agree W (act.run p.world) (act'.run q.world)) :
    (p.onWorld act).1 = (q.onWorld act').1 ∧ Like W (p.onWorld act).2 (q.onWorld act').2 := by
  unfold Pass.onWorld
  generalize act.run p.world = r at hact ⊢
  generalize act'.run q.world = r' at hact ⊢
  cases hact with
  | ok hworld => exact ⟨rfl, h.draft, hworld⟩
  | error hworld => exact ⟨rfl, h.draft, hworld⟩

/-- An action on the pool goes on, or fails, in both passes alike. -/
theorem liftPool_agrees (h : Like W p q) (act : PoolM α) :
    Agree (Like W) ((liftPool act).run p) ((liftPool act).run q) := by
  obtain ⟨hsame, hlike⟩ := h.onPool act
  show Agree _ (liftPool act p) (liftPool act q)
  unfold liftPool
  generalize p.onPool act = r at hsame hlike ⊢
  generalize q.onPool act = r' at hsame hlike ⊢
  obtain ⟨a, p'⟩ := r
  obtain ⟨a', q'⟩ := r'
  cases hsame
  cases a with
  | ok a => exact .ok hlike
  | error e => exact .error hlike

/-- Actions of the transformer that agree go on, or fail, in both passes alike. -/
theorem liftWorld_agrees {act act' : TransformM σ α} (h : Like W p q)
    (hact : Agree W (act.run p.world) (act'.run q.world)) :
    Agree (Like W) ((liftWorld act).run p) ((liftWorld act').run q) := by
  obtain ⟨hsame, hlike⟩ := h.onWorld hact
  show Agree _ (liftWorld act p) (liftWorld act' q)
  unfold liftWorld
  generalize p.onWorld act = r at hsame hlike ⊢
  generalize q.onWorld act' = r' at hsame hlike ⊢
  obtain ⟨a, p'⟩ := r
  obtain ⟨a', q'⟩ := r'
  cases hsame
  cases a with
  | ok a => exact .ok hlike
  | error e => exact .error hlike

/-- The phases of nested units agree when the nested passes do. -/
theorem nestedPhase_agrees
    (h : ∀ unit e w v, W w v → Agree W ((inner unit e).run w) ((inner' unit e).run v))
    (source : Encoding) (ids : List Handle) (known : List (StoredUnit × StoredUnit))
    (hlike : Like W p q) :
    Agree (Like W) ((nestedPhase inner source known ids).run p)
      ((nestedPhase inner' source known ids).run q) := by
  induction ids generalizing known p q with
  | nil => exact .ok hlike
  | cons id rest ih =>
    rw [nestedPhase, nestedPhase]
    refine .get_bind ?_
    -- The drafts are the same, so that both phases deal with the instruction in the same way.
    rw [hlike.draft]
    cases loadedUnit? q.draft.pool id with
    | none => exact ih known hlike
    | some unit =>
      dsimp only
      cases known.lookup unit with
      | some result =>
        exact (liftPool_agrees hlike _).bind fun _ _ _ hlike => ih known hlike
      | none =>
        refine (liftWorld_agrees hlike (h unit source _ _ hlike.world)).bind ?_
        intro result p' q' hlike
        exact (liftPool_agrees hlike _).bind fun _ _ _ hlike => ih _ hlike

end Pass

/-! ### Scripts -/

/-- The script goes on in the same way when it looks at user states that `S` relates. -/
def Script.Respects (S : σ → σ → Prop) : Script σ → Prop
  | .done _ => True
  | .fail _ => True
  | .look k =>
    (∀ v v' : View σ, v.draft = v'.draft → v.mode = v'.mode → S v.state v'.state → k v = k v') ∧
      ∀ v, Respects S (k v)
  | .emit _ k => ∀ r, Respects S (k r)
  | .steal _ _ k => ∀ r, Respects S (k r)
  | .setLine _ _ k => Respects S k
  | .begin _ k => Respects S k
  | .setState _ k => Respects S k
  | .nested _ k => ∀ r, Respects S (k r)

/-- The script does not read the user state. -/
def Script.Blind (s : Script σ) : Prop := s.Respects fun _ _ => True

/-- Every script goes on in the same way when it looks at the same state. -/
theorem Script.respects_eq (s : Script σ) : s.Respects (· = ·) := by
  induction s with
  | done out => trivial
  | fail e => trivial
  | look k ih =>
    refine ⟨fun v v' hdraft hmode hstate => ?_, ih⟩
    obtain ⟨draft, mode, state⟩ := v
    obtain ⟨draft', mode', state'⟩ := v'
    cases hdraft
    cases hmode
    cases hstate
    rfl
  | emit i k ih => exact ih
  | steal thief victim k ih => exact ih
  | setLine id line k ih => exact ih
  | begin m k ih => exact ih
  | setState state k ih => exact ih
  | nested unit k ih => exact ih

/-- Worlds of passes in progress: their user states are related, and both passes are in the same
    mode.  The modes outside may differ. -/
structure World.InPass (S : σ → σ → Prop) (w v : World σ) : Prop where
  state : S w.state v.state
  current : ∃ m outside outside', w.modes = ⟨m :: outside⟩ ∧ v.modes = ⟨m :: outside'⟩

namespace World.InPass

variable {w v : World σ}

/-- Both passes are in the same mode. -/
theorem mode_eq (h : w.InPass S v) : w.modes.current = v.modes.current := by
  obtain ⟨m, outside, outside', hw, hv⟩ := h.current
  rw [hw, hv]
  rfl

/-- Both passes begin the same mode. -/
theorem begin (h : w.InPass S v) (m : Mode) :
    InPass S { w with modes := w.modes.begin m } { v with modes := v.modes.begin m } := by
  obtain ⟨_, outside, outside', hw, hv⟩ := h.current
  refine ⟨h.state, m, outside, outside', ?_, ?_⟩
  · rw [hw]
    rfl
  · rw [hv]
    rfl

/-- Passes that are entered start in the default mode, whatever was the mode before. -/
theorem enter (h : S w.state v.state) :
    InPass S { w with modes := w.modes.enter } { v with modes := v.modes.enter } :=
  ⟨h, {}, w.modes.frames, v.modes.frames, rfl, rfl⟩

/-- Actions that keep the modes stay within their passes. -/
theorem agree {α : Type} {act act' : TransformM σ α} (h : w.InPass S v)
    (hkeeps : Keeps World.modes act) (hkeeps' : Keeps World.modes act')
    (hact : Agree (fun w v => S w.state v.state) (act.run w) (act'.run v)) :
    Agree (InPass S) (act.run w) (act'.run v) :=
  hact.imp ⟨hact.endState, by rw [hkeeps, hkeeps']; exact h.current⟩

end World.InPass

variable {rules : RuleSet σ} {inner : NestedTransform σ}

/-- **Scripts.** A script that respects a relation of user states has the same result in passes
    whose user states are related. -/
theorem Script.run_agrees (hrefl : ∀ s, S s s)
    (h : ∀ unit e w v, World.InPass S w v →
      Agree (World.InPass S) ((inner unit e).run w) ((inner unit e).run v))
    {s : Script σ} (hs : s.Respects S) {p q : Pass σ} (hlike : p.Like (World.InPass S) q) :
    Agree (Pass.Like (World.InPass S)) ((s.run inner).run p) ((s.run inner).run q) := by
  induction s generalizing p q with
  | done out => exact .ok hlike
  | fail e => exact .error hlike
  | look k ih =>
    -- Both scripts see the same unit in the same mode, and user states that the script cannot tell
    -- apart.
    have hview : k p.view = k q.view :=
      hs.1 p.view q.view hlike.draft hlike.world.mode_eq hlike.world.state
    show Agree _ (((k p.view).run inner).run p) (((k q.view).run inner).run q)
    rw [hview]
    exact ih q.view (hs.2 _) hlike
  | emit i k ih =>
    -- The pools are the same, so the scripts are given the same handle.
    obtain ⟨hsame, hlike⟩ := hlike.onPool (Pool.insert i)
    show Agree _ (((k (p.onPool (Pool.insert i)).1).run inner).run (p.onPool (Pool.insert i)).2)
      (((k (q.onPool (Pool.insert i)).1).run inner).run (q.onPool (Pool.insert i)).2)
    rw [hsame]
    exact ih _ (hs _) hlike
  | steal thief victim k ih =>
    obtain ⟨hsame, hlike⟩ := hlike.onPool (Pool.steal thief victim)
    show Agree _
      (((k (p.onPool (Pool.steal thief victim)).1).run inner).run
        (p.onPool (Pool.steal thief victim)).2)
      (((k (q.onPool (Pool.steal thief victim)).1).run inner).run
        (q.onPool (Pool.steal thief victim)).2)
    rw [hsame]
    exact ih _ (hs _) hlike
  | setLine id line k ih =>
    refine ih hs ⟨?_, hlike.world⟩
    show { p.draft with lines := p.draft.lines.insert id line } =
      { q.draft with lines := q.draft.lines.insert id line }
    rw [hlike.draft]
  | begin m k ih => exact ih hs ⟨hlike.draft, hlike.world.begin m⟩
  | setState state k ih => exact ih hs ⟨hlike.draft, hrefl state, hlike.world.current⟩
  | nested unit k ih =>
    -- Only here do the worlds take part: the nested passes agree by assumption.
    have hinner := h unit p.draft.encoding _ _ hlike.world
    obtain ⟨hsame, hlike'⟩ := hlike.onWorld hinner
    show Agree _
      (((k (p.onWorld (inner unit p.draft.encoding)).1).run inner).run
        (p.onWorld (inner unit p.draft.encoding)).2)
      (((k (q.onWorld (inner unit q.draft.encoding)).1).run inner).run
        (q.onWorld (inner unit q.draft.encoding)).2)
    rw [← hlike.draft, hsame]
    exact ih _ (hs _) hlike'

namespace Pass

section

variable (hrefl : ∀ s, S s s)
  (h : ∀ unit e w v, World.InPass S w v →
    Agree (World.InPass S) ((inner unit e).run w) ((inner unit e).run v))
  (hrules : ∀ rule ∈ rules.rules, ∀ matched, (rule.handler matched).Respects S)

include hrefl h hrules

/-- Scans agree when the handlers respect the relation. -/
theorem scan_agrees (code : List (Handle × Opcode)) {p q : Pass σ}
    (hlike : Like (World.InPass S) p q) :
    Agree (Like (World.InPass S)) ((scan rules inner code).run p) ((scan rules inner code).run q) := by
  -- The induction is on the length of what is left to go over.
  induction hlen : code.length using Nat.strongRecOn generalizing code p q with
  | ind n ih =>
    cases code with
    | nil =>
      rw [scan]
      exact .ok hlike
    | cons entry rest =>
      obtain ⟨id, o⟩ := entry
      rw [List.length_cons] at hlen
      have hmode : p.mode = q.mode := hlike.world.mode_eq
      rw [scan]
      refine .get_bind ?_
      rw [hmode]
      cases hmatch : rules.firstMatch? q.mode (o :: rest.map (·.2)) with
      | none =>
        exact (ih _ (by omega) rest hlike rfl).bind fun _ _ _ hlike => .ok hlike
      | some hit =>
        obtain ⟨rule, length⟩ := hit
        have hrule := RuleSet.mem_of_firstMatch? hmatch
        have hshort : (rest.drop (length - 1)).length < n := by
          rw [List.length_drop]
          omega
        refine (Script.run_agrees hrefl h (hrules rule hrule _) hlike).bind ?_
        intro replacement p' q' hlike
        exact (ih _ hshort _ (hlike.carryLine _ _) rfl).bind fun _ _ _ hlike => .ok hlike

/-- What a pass does behind its start agrees when the handlers respect the relation. -/
theorem transformBody_agrees (source : Encoding) {p q : Pass σ}
    (hlike : Like (World.InPass S) p q) :
    Agree (Like (World.InPass S)) ((transformBody rules inner source).run p)
      ((transformBody rules inner source).run q) := by
  refine .get_bind ?_
  rw [hlike.draft]
  refine (nestedPhase_agrees h source q.draft.instrs [] hlike).bind ?_
  intro _ p' q' hlike
  refine .get_bind ?_
  rw [hlike.draft]
  refine (scan_agrees hrefl h hrules _ hlike).bind ?_
  intro out p'' q'' hlike
  refine .get_bind ?_
  rw [hlike.draft]
  exact .ok hlike

end

end Pass

namespace Transform

variable {options : TransformOptions} {world world' : World σ}

section

variable (hrefl : ∀ s, S s s)
  (hrules : ∀ rule ∈ rules.rules, ∀ matched, (rule.handler matched).Respects S)

include hrefl hrules

/-- **Passes.** They agree from related user states.  The modes outside do not count, since every
    pass starts in a mode of its own. -/
theorem pass_agrees (hkeeps : ∀ unit e, Keeps World.modes (inner unit e))
    (h : ∀ unit e w v, S w.state v.state →
      Agree (fun w v => S w.state v.state) ((inner unit e).run w) ((inner unit e).run v))
    (c : Routine) (o : Overrides) (hstate : S world.state world'.state) :
    Agree (fun w v => S w.state v.state) ((pass rules options inner c o).run world)
      ((pass rules options inner c o).run world') := by
  have hinner : ∀ unit e w v, World.InPass S w v →
      Agree (World.InPass S) ((inner unit e).run w) ((inner unit e).run v) :=
    fun unit e w v hw => hw.agree (hkeeps unit e) (hkeeps unit e) (h unit e w v hw.state)
  -- Both passes enter a mode of their own, so that the modes around them are not looked at.
  have hbody := Pass.transformBody_agrees hrefl hinner hrules c.encoding
    (p := ⟨{ c.toDraft with encoding := options.encoding.getD c.encoding },
      { world with modes := world.modes.enter }⟩)
    (q := ⟨{ c.toDraft with encoding := options.encoding.getD c.encoding },
      { world' with modes := world'.modes.enter }⟩) ⟨rfl, .enter hstate⟩
  show Agree _ (pass rules options inner c o world) (pass rules options inner c o world')
  unfold pass
  dsimp only
  unfold EStateM.run at hbody
  generalize Pass.transformBody rules inner c.encoding _ = r at hbody ⊢
  generalize Pass.transformBody rules inner c.encoding _ = r' at hbody ⊢
  -- The drafts are the same, and so is what becomes of them.
  cases hbody with
  | error hlike => exact .error hlike.world.state
  | ok hlike =>
    dsimp only
    cases Routine.ofDraft? _ with
    | ok c => exact .ok hlike.world.state
    | error e => exact .error hlike.world.state

/-- Nested passes agree from related user states, whatever the modes are. -/
theorem unit_agrees (depth : Nat) (stored : StoredUnit) (e : Encoding)
    (hstate : S world.state world'.state) :
    Agree (fun w v => S w.state v.state) ((unit rules options depth stored e).run world)
      ((unit rules options depth stored e).run world') := by
  induction depth generalizing stored e world world' with
  | zero => exact .error hstate
  | succ depth ih =>
    have hlift : ∀ {ε α : Type} (wrap : ε → TransformError) (r : Except ε α) {w v : World σ},
        S w.state v.state →
          Agree (fun w v => S w.state v.state) ((lift wrap r).run w) ((lift wrap r).run v) := by
      intro ε α wrap r w v hstate
      cases r with
      | ok a => exact .ok hstate
      | error e => exact .error hstate
    refine (hlift _ _ hstate).bind fun c w v hstate => ?_
    refine (pass_agrees hrefl hrules (keeps_unit depth) (fun unit e w v => ih unit e) c {}
      hstate).bind ?_
    exact fun out w v hstate => hlift _ _ hstate

end

end Transform

end StackCode

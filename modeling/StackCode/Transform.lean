import StackCode.Transform.Rule

namespace StackCode

/-!
# Transforming routines

A pass first transforms every nested unit that the routine loads, each of them once, and then goes
over the instructions from left to right.  Where a rule has a run, its handler's instructions take
the place of the longest one; all other instructions are kept.

* `Transformer` — rules, options, a user state and the modes of the passes in progress.
* `Transformer.transform`, `Transformer.transformUnit` — a pass over a routine or a stored unit.
* `Script.run` — what a handler does to the pass.
* `Pass.scan` — goes over the instructions.
* `Pass.carryLine` — keeps the line of a run whose first instruction is dropped.
* `Transformer.handlerDepth` — a bound on passes within passes, chosen so that all of this ends.
-/

/-- What passes share: the user state and the modes. -/
structure World (σ : Type) where
  modes : ModeStack := {}
  state : σ
  deriving DecidableEq

/-- An action of a transformer.  What a failing action has done to the user state stays done. -/
abbrev TransformM (σ α : Type) := EStateM TransformError (World σ) α

/-- What a pass works on. -/
structure Pass (σ : Type) where
  draft : Draft
  world : World σ

/-- An action of a pass. -/
abbrev PassM (σ α : Type) := EStateM TransformError (Pass σ) α

/-- Transforms a nested unit whose bytes use the given encoding. -/
abbrev NestedTransform (σ : Type) := StoredUnit → Encoding → TransformM σ StoredUnit

/-- New names of a transformed routine. -/
structure Overrides where
  name : Option String := none
  filename : Option String := none
  deriving DecidableEq, Repr

namespace Pass

variable {σ : Type}

/-- Runs an action on the pool, and hands on its fault or its result. -/
def onPool {α : Type} (act : PoolM α) (p : Pass σ) : Except BuildError α × Pass σ :=
  match act.run p.draft.pool with
  | .ok a pool => (.ok a, { p with draft := { p.draft with pool := pool } })
  | .error e pool => (.error e, { p with draft := { p.draft with pool := pool } })

/-- Runs an action of the transformer, and hands on its fault or its result. -/
def onWorld {α : Type} (act : TransformM σ α) (p : Pass σ) : Except TransformError α × Pass σ :=
  match act.run p.world with
  | .ok a world => (.ok a, { p with world := world })
  | .error e world => (.error e, { p with world := world })

/-- The mode that the pass is in. -/
def mode (p : Pass σ) : Mode := p.world.modes.current

/-- What a handler sees of the pass. -/
def view (p : Pass σ) : View σ := ⟨p.draft, p.mode, p.world.state⟩

/-- The pass with a line set for an instruction. -/
def setLine (id : Handle) (line : UInt32) (p : Pass σ) : Pass σ :=
  { p with draft := { p.draft with lines := p.draft.lines.insert id line } }

end Pass

/-- Does what the script says; its end or its fault ends the run. -/
def Script.run {σ : Type} (inner : NestedTransform σ) : Script σ → PassM σ (List Handle)
  | .done out => fun p => .ok out p
  | .fail e => fun p => .error e p
  | .look k => fun p => Script.run inner (k p.view) p
  | .emit i k => fun p =>
    let (r, p) := p.onPool (Pool.insert i)
    Script.run inner (k r) p
  | .steal thief victim k => fun p =>
    let (r, p) := p.onPool (Pool.steal thief victim)
    Script.run inner (k r) p
  | .setLine id line k => fun p => Script.run inner k (p.setLine id line)
  | .begin m k => fun p =>
    Script.run inner k { p with world := { p.world with modes := p.world.modes.begin m } }
  | .setState s k => fun p => Script.run inner k { p with world := { p.world with state := s } }
  | .nested unit k => fun p =>
    let (r, p) := p.onWorld (inner unit p.draft.encoding)
    Script.run inner (k r) p

namespace Pass

variable {σ : Type}

/-- Runs an action on the pool; its fault ends the pass. -/
def liftPool {α : Type} (act : PoolM α) : PassM σ α := fun p =>
  match p.onPool act with
  | (.ok a, p) => .ok a p
  | (.error e, p) => .error (.build e) p

/-- Runs an action of the transformer; its fault ends the pass. -/
def liftWorld {α : Type} (act : TransformM σ α) : PassM σ α := fun p =>
  match p.onWorld act with
  | (.ok a, p) => .ok a p
  | (.error e, p) => .error e p

/-! ### Nested units -/

/-- The constant that an instruction loads, if it is a unit. -/
def loadedUnit? (pool : Pool) (id : Handle) : Option StoredUnit :=
  match (pool.get? id).map Instr.operand with
  | some (Operand.const (Const.code unit)) => some unit
  | _ => none

/-- Transforms the units that the instructions load; `known` holds those that are done, beside
    their results.  Equal units are transformed once, where they occur first. -/
def nestedPhase (inner : NestedTransform σ) (source : Encoding)
    (known : List (StoredUnit × StoredUnit)) : List Handle → PassM σ Unit
  | [] => return ()
  | id :: rest => do
    let p ← get
    match loadedUnit? p.draft.pool id with
    | none => nestedPhase inner source known rest
    | some unit =>
      match known.lookup unit with
      | some result =>
        liftPool (Pool.replace id (.const (.code result)))
        nestedPhase inner source known rest
      | none =>
        let result ← liftWorld (inner unit source)
        liftPool (Pool.replace id (.const (.code result)))
        nestedPhase inner source ((unit, result) :: known) rest

/-! ### The scan -/

/-- The first instruction of the replacement takes the line of the first instruction of the run,
    if that one is dropped without another having taken its jumps over.  A line that the
    replacement starts by itself stays. -/
def carryLine (d : Draft) (matched replacement : List Handle) : Draft :=
  match matched, replacement with
  | first :: _, head :: _ =>
    if first ∈ replacement ∨ (d.pool.stolenBy first).isSome then d
    else
      match d.lines.get? first with
      | some line => { d with lines := d.lines.insertNew head line }
      | none => d
  | _, _ => d

/-- Goes over the instructions and collects those that take their place. -/
def scan (rules : RuleSet σ) (inner : NestedTransform σ) :
    List (Handle × Opcode) → PassM σ (List Handle)
  | [] => return []
  | (id, o) :: rest => do
    let p ← get
    match rules.firstMatch? p.mode (o :: rest.map (·.2)) with
    | none =>
      let behind ← scan rules inner rest
      return id :: behind
    | some (rule, length) =>
      let matched := id :: (rest.take (length - 1)).map (·.1)
      let replacement ← (rule.handler matched).run inner
      modify fun p => { p with draft := carryLine p.draft matched replacement }
      let behind ← scan rules inner (rest.drop (length - 1))
      return replacement ++ behind
termination_by source => source.length
decreasing_by
  · rw [List.length_cons]
    omega
  · rw [List.length_drop, List.length_cons]
    omega

/-! ### The pass -/

/-- Transforms the nested units, then goes over the instructions. -/
def transformBody (rules : RuleSet σ) (inner : NestedTransform σ) (source : Encoding) :
    PassM σ Draft := do
  let p ← get
  nestedPhase inner source [] p.draft.instrs
  let p ← get
  let code := p.draft.toBody.code.map fun entry => (entry.1, entry.2.opcode)
  let out ← scan rules inner code
  let p ← get
  return { p.draft with instrs := out }

end Pass

/-- How the transformer stores units: the options of storing them. -/
abbrev TransformOptions := StoreOptions

namespace Transform

variable {σ : Type}

/-- A pass over a routine.  It runs in a mode of its own, which ends with it in every case. -/
def pass (rules : RuleSet σ) (options : TransformOptions) (inner : NestedTransform σ)
    (c : Routine) (o : Overrides) : TransformM σ Routine := fun world =>
  let draft := { c.toDraft with encoding := options.encoding.getD c.encoding }
  let start : Pass σ := ⟨draft, { world with modes := world.modes.enter }⟩
  let close := fun w : World σ => { w with modes := w.modes.leave }
  match Pass.transformBody rules inner c.encoding start with
  | .error e p => .error e (close p.world)
  | .ok d p =>
    let named := { d with name := o.name.getD d.name, filename := o.filename.getD d.filename }
    match Routine.ofDraft? named with
    | .ok c => .ok c (close p.world)
    | .error e => .error (.build e) (close p.world)

/-- The result of a step that leaves the world alone. -/
def lift {ε α : Type} (wrap : ε → TransformError) (r : Except ε α) : TransformM σ α :=
  match r with
  | .ok a => pure a
  | .error e => throw (wrap e)

/-- Loads a unit, transforms it and stores the result.  Passes nest at most `depth` deep, and the
    recursion is on what is left of that. -/
def unit (rules : RuleSet σ) (options : TransformOptions) : (depth : Nat) → NestedTransform σ
  | 0 => fun _ _ => throw .tooDeep
  | depth + 1 => fun stored e => do
    let c ← lift .load (Routine.load? stored e)
    let out ← pass rules options (unit rules options depth) c {}
    lift .store (out.store? options)

end Transform

/-- Rules, options, and the state that runs leave behind. -/
structure Transformer (σ : Type) where
  rules : RuleSet σ
  options : TransformOptions := {}
  world : World σ

namespace Transformer

variable {σ : Type}

/-- How deep handlers may nest passes beyond the units nested in the routine.  Any limit would do:
    it is there for `transform` to come to an end, since a handler may ask for a pass over whatever
    unit it makes up.  The passes themselves are defined for every depth. -/
def handlerDepth : Nat := 1000

/-- Transforms a routine. -/
def transform (t : Transformer σ) (c : Routine) (o : Overrides) :
    Except TransformError Routine × Transformer σ :=
  let depth := Const.nestingItems c.consts + handlerDepth
  let inner := Transform.unit t.rules t.options depth
  match Transform.pass t.rules t.options inner c o t.world with
  | .ok c world => (.ok c, { t with world := world })
  | .error e world => (.error e, { t with world := world })

/-- Loads a unit, transforms it and stores the result. -/
def transformUnit (t : Transformer σ) (stored : StoredUnit) (e : Encoding) :
    Except TransformError StoredUnit × Transformer σ :=
  match Routine.load? stored e with
  | .error err => (.error (.load err), t)
  | .ok c =>
    match t.transform c {} with
    | (.error err, t) => (.error err, t)
    | (.ok out, t) => ((out.store? t.options).mapError .store, t)

/-- The transformer as text. -/
def describe (t : Transformer σ) : String :=
  let names := t.rules.names.map fun n => String.ofList (Text.quote n)
  "Transformer \x7b rules: [" ++ String.intercalate ", " names ++
    s!"], depth: {t.world.modes.depth}, options: TransformOptions" ++ t.options.fields ++
    ", .. \x7d"

end Transformer

end StackCode

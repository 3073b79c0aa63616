import StackCode.Proofs.Pattern.Matching
import StackCode.Proofs.Transform.Jumps
import StackCode.Proofs.Transform.Nesting

namespace StackCode

/-!
# The scan partitions its source

The scan is a recursion over what is left of the source.  At each turn it deals with one part, told
by the rule that wins there, and goes on behind it; the parts are collected in a list.

* `Rule.Matches`, `RuleSet.Wins` — the rule that fires at a place, by the language of its pattern.
* `Stretch` — a part of the source that the scan deals with at once: an instruction that is copied,
  or a run for which a rule fires.
* `Pass.Partitions` — the stretches of a scan cut the source into parts, from left to right, and
  each of them starts in the pass that the one before it has left.
* `Handler.Idle` — a handler that puts back what it was given.
* `Transform.partition_of_pass` — a pass that succeeds partitions its source, and with idle handlers
  it has the result of a pass without rules.
-/

variable {σ : Type}

/-! ### Winning rules -/

/-- A rule for runs of one opcode. -/
def Rule.single (name : String) (o : Opcode) (modes : List Mode) (handler : Handler σ) : Rule σ where
  name := name
  pattern := .op o
  matcher := .cls (· = o)
  compiled := rfl
  modes := modes
  handler := handler

/-- The first `n` opcodes of the window, one at least, are a word of the rule's pattern. -/
def Rule.Matches (r : Rule σ) (window : List Opcode) (n : Nat) : Prop :=
  0 < n ∧ n ≤ window.length ∧ window.take n ∈ r.pattern.language

section

variable {rule : Rule σ} {window : List Opcode} {n : Nat}

/-- A matcher that finds nothing is that of a rule that does not match. -/
theorem Rule.not_matches_of_longest? (h : rule.matcher.longest? window = none) :
    ¬ rule.Matches window n := by
  rintro ⟨hpos, hmatch⟩
  have hzero := Matcher.longest?_eq_none.1 h n ((Pattern.mem_ends_start rule.compiled).2 hmatch)
  omega

/-- What the matcher finds is the longest match. -/
theorem Rule.matches_of_longest? (h : rule.matcher.longest? window = some n) :
    rule.Matches window n ∧ ∀ k, rule.Matches window k → k ≤ n := by
  obtain ⟨hpos, hends, hgreatest⟩ := Matcher.longest?_eq_some.1 h
  refine ⟨⟨hpos, (Pattern.mem_ends_start rule.compiled).1 hends⟩, ?_⟩
  rintro k ⟨-, hk⟩
  exact hgreatest k ((Pattern.mem_ends_start rule.compiled).2 hk)

end

namespace RuleSet

variable {s : RuleSet σ} {m : Mode} {window : List Opcode} {rule : Rule σ} {n : Nat}

/-- No rule that is active in the mode matches. -/
def Silent (s : RuleSet σ) (m : Mode) (window : List Opcode) : Prop :=
  ∀ r ∈ s.rules, r.appliesIn m = true → ∀ n, ¬ r.Matches window n

/-- The rule is the first one of the mode that matches, and `n` is its longest match. -/
structure Wins (s : RuleSet σ) (m : Mode) (window : List Opcode) (rule : Rule σ) (n : Nat) :
    Prop where
  first : ∃ earlier later, s.rules = earlier ++ rule :: later ∧
    ∀ r ∈ earlier, r.appliesIn m = true → ∀ k, ¬ r.Matches window k
  active : rule.appliesIn m = true
  matched : rule.Matches window n
  longest : ∀ k, rule.Matches window k → k ≤ n

/-- When no first match is found, no rule of the mode matches. -/
theorem silent_of_firstMatch? (h : s.firstMatch? m window = none) : s.Silent m window := by
  intro r hr hactive n
  have hnone := List.findSome?_eq_none_iff.1 h r hr
  rw [if_pos hactive, Option.map_eq_none_iff] at hnone
  exact Rule.not_matches_of_longest? hnone

/-- The first match found is that of the rule that wins. -/
theorem wins_of_firstMatch? (h : s.firstMatch? m window = some (rule, n)) :
    s.Wins m window rule n := by
  obtain ⟨earlier, r, later, hrules, hfound, hnone⟩ := List.findSome?_eq_some_iff.1 h
  by_cases hactive : r.appliesIn m = true
  · rw [if_pos hactive] at hfound
    obtain ⟨k, hlongest, heq⟩ := Option.map_eq_some_iff.1 hfound
    cases heq
    obtain ⟨hmatched, hgreatest⟩ := Rule.matches_of_longest? hlongest
    refine ⟨⟨earlier, later, hrules, fun r' hr' hactive' k => ?_⟩, hactive, hmatched, hgreatest⟩
    have hbefore := hnone r' hr'
    rw [if_pos hactive', Option.map_eq_none_iff] at hbefore
    exact Rule.not_matches_of_longest? hbefore
  · rw [if_neg hactive] at hfound
    cases hfound

end RuleSet

/-! ### Stretches -/

/-- A part of the source that the scan deals with at once. -/
structure Stretch (σ : Type) where
  start : Nat
  length : Nat
  /-- The instructions that take its place. -/
  out : List Handle
  /-- The pass when the scan reaches the part. -/
  before : Pass σ
  /-- The pass when the scan leaves the part behind. -/
  after : Pass σ

namespace Stretch

/-- The place behind the part. -/
def stop (s : Stretch σ) : Nat := s.start + s.length

/-- The instructions of the part. -/
def handles (s : Stretch σ) (source : List (Handle × Opcode)) : List Handle :=
  ((source.drop s.start).take s.length).map (·.1)

/-- The opcodes from the start of the part on. -/
def window (s : Stretch σ) (source : List (Handle × Opcode)) : List Opcode :=
  (source.drop s.start).map (·.2)

/-- A single instruction is left as it is, since no rule of the mode matches. -/
structure Copied (rules : RuleSet σ) (source : List (Handle × Opcode)) (s : Stretch σ) :
    Prop where
  single : s.length = 1
  silent : rules.Silent s.before.mode (s.window source)
  out_eq : s.out = s.handles source
  after_eq : s.after = s.before

/-- The rule that wins takes the part, and its handler says what takes its place. -/
def Fired (rules : RuleSet σ) (inner : NestedTransform σ) (source : List (Handle × Opcode))
    (s : Stretch σ) : Prop :=
  ∃ rule p, rules.Wins s.before.mode (s.window source) rule s.length ∧
    ((rule.handler (s.handles source)).run inner).run s.before = .ok s.out p ∧
    s.after = { p with draft := Pass.carryLine p.draft (s.handles source) s.out }

/-- Each stretch starts in the pass that the one before it has left: the first one in `p`, while the
    last one leaves `q`. -/
def Linked : Pass σ → List (Stretch σ) → Pass σ → Prop
  | p, [], q => p = q
  | p, s :: ss, q => s.before = p ∧ Linked s.after ss q

end Stretch

namespace Pass

variable {rules : RuleSet σ} {inner : NestedTransform σ} {source code : List (Handle × Opcode)}
  {lo : Nat} {p q : Pass σ} {out : List Handle} {s : Stretch σ} {ss : List (Stretch σ)}

/-- The stretches `ss` cut the source from the place `lo` on into parts that do not overlap, and the
    scan deals with them from left to right. -/
structure Partitions (rules : RuleSet σ) (inner : NestedTransform σ)
    (source : List (Handle × Opcode)) (lo : Nat) (p : Pass σ) (ss : List (Stretch σ))
    (out : List Handle) (q : Pass σ) : Prop where
  dealt : ∀ s ∈ ss, s.Copied rules source ∨ s.Fired rules inner source
  within : ∀ s ∈ ss, lo ≤ s.start ∧ 0 < s.length ∧ s.stop ≤ source.length
  ordered : ss.Pairwise fun s t => s.stop ≤ t.start
  complete : ∀ k, lo ≤ k → k < source.length → ∃ s ∈ ss, s.start ≤ k ∧ k < s.stop
  linked : Stretch.Linked p ss q
  out_eq : out = ss.flatMap (·.out)

/-- Behind the source there is nothing to cut. -/
theorem Partitions.nil (h : source.length ≤ lo) : Partitions rules inner source lo p [] [] p where
  dealt := List.forall_mem_nil _
  within := List.forall_mem_nil _
  ordered := .nil
  complete k hlo hlt := absurd hlt (by omega)
  linked := rfl
  out_eq := rfl

/-- A stretch at the front goes before the parts behind it. -/
theorem Partitions.cons (h : Partitions rules inner source s.stop s.after ss out q)
    (hdealt : s.Copied rules source ∨ s.Fired rules inner source) (hlength : 0 < s.length)
    (hstop : s.stop ≤ source.length) :
    Partitions rules inner source s.start s.before (s :: ss) (s.out ++ out) q where
  dealt := List.forall_mem_cons.2 ⟨hdealt, h.dealt⟩
  within := by
    refine List.forall_mem_cons.2 ⟨⟨Nat.le_refl _, hlength, hstop⟩, fun t ht => ?_⟩
    obtain ⟨hstart, hrest⟩ := h.within t ht
    exact ⟨Nat.le_trans (Nat.le_add_right _ _) hstart, hrest⟩
  ordered := List.pairwise_cons.2 ⟨fun t ht => (h.within t ht).1, h.ordered⟩
  complete k hlo hlt := by
    by_cases hk : k < s.stop
    · exact ⟨s, List.mem_cons_self, hlo, hk⟩
    · obtain ⟨t, ht, hplace⟩ := h.complete k (Nat.le_of_not_lt hk) hlt
      exact ⟨t, List.mem_cons_of_mem _ ht, hplace⟩
  linked := ⟨rfl, h.linked⟩
  out_eq := by rw [List.flatMap_cons, h.out_eq]

/-- **Scans.** What a scan goes over is partitioned. -/
theorem Scans.exists_partitions {fs : List Firing} (h : Scans rules inner code p fs out q)
    (hcode : source.drop lo = code) : ∃ ss, Partitions rules inner source lo p ss out q := by
  induction h generalizing lo with
  | nil => exact ⟨[], .nil (List.drop_eq_nil_iff.1 hcode)⟩
  | @keep id o rest p q fs out hmatch hrest ih =>
    have hlen := congrArg List.length hcode
    rw [List.length_drop, List.length_cons] at hlen
    have hrest : source.drop (lo + 1) = rest := by
      rw [← List.drop_drop, hcode]
      rfl
    obtain ⟨ss, hss⟩ := ih hrest
    -- A turn without a match copies one instruction and goes on behind it.
    have hcopied : Stretch.Copied rules source ⟨lo, 1, [id], p, p⟩ := by
      refine ⟨rfl, ?_, ?_, rfl⟩
      · rw [Stretch.window, hcode]
        exact RuleSet.silent_of_firstMatch? hmatch
      · rw [Stretch.handles, hcode]
        rfl
    refine ⟨_, Partitions.cons (s := ⟨lo, 1, [id], p, p⟩) hss (.inl hcopied) Nat.one_pos ?_⟩
    show lo + 1 ≤ source.length
    omega
  | @fire id o rest p p' q fs out matched replacement rule length hmatch hmatched hrun hrest ih =>
    have hlen := congrArg List.length hcode
    rw [List.length_drop, List.length_cons] at hlen
    have hwins := RuleSet.wins_of_firstMatch? hmatch
    obtain ⟨hpos, hle, -⟩ := hwins.matched
    rw [List.length_cons, List.length_map] at hle
    obtain ⟨n, rfl⟩ : ∃ n, length = n + 1 := ⟨length - 1, by omega⟩
    rw [Nat.add_sub_cancel] at hmatched ih
    have hrest : source.drop (lo + (n + 1)) = rest.drop n := by
      rw [← List.drop_drop, hcode]
      rfl
    obtain ⟨ss, hss⟩ := ih hrest
    have hhandles : ((source.drop lo).take (n + 1)).map (·.1) = matched := by
      rw [hcode, hmatched]
      rfl
    -- A turn with a match replaces the whole run, and goes on behind that.
    have hfired : Stretch.Fired rules inner source ⟨lo, n + 1, replacement, p,
        { p' with draft := carryLine p'.draft matched replacement }⟩ := by
      refine ⟨rule, p', ?_, ?_, ?_⟩
      · rw [Stretch.window, hcode]
        exact hwins
      · rw [Stretch.handles, hhandles]
        exact hrun
      · rw [Stretch.handles, hhandles]
    refine ⟨_, Partitions.cons (s := ⟨lo, n + 1, replacement, p,
      { p' with draft := carryLine p'.draft matched replacement }⟩) hss (.inr hfired) hpos ?_⟩
    show lo + (n + 1) ≤ source.length
    omega

end Pass

/-! ### Idle handlers -/

/-- Where the handler succeeds, it puts back the run that it was given and leaves the unit as it
    was.  It may switch modes and change the user state. -/
def Handler.Idle (inner : NestedTransform σ) (h : Handler σ) : Prop :=
  ∀ (matched out : List Handle) (p q : Pass σ),
    ((h matched).run inner).run p = .ok out q → out = matched ∧ q.draft = p.draft

namespace Pass

variable {rules : RuleSet σ} {inner inner' : NestedTransform σ} {source : Encoding}
  {code : List (Handle × Opcode)} {p q : Pass σ} {out : List Handle}

/-- A run that is put back keeps its line. -/
theorem carryLine_self (d : Draft) (matched : List Handle) : carryLine d matched matched = d := by
  cases matched with
  | nil => rfl
  | cons first rest => exact if_pos (.inl List.mem_cons_self)

/-- With idle handlers, a scan copies its source and leaves the draft as it was. -/
theorem Scans.of_idle {fs : List Firing} (h : Scans rules inner code p fs out q)
    (hidle : ∀ rule ∈ rules.rules, rule.handler.Idle inner) :
    out = code.map (·.1) ∧ q.draft = p.draft := by
  induction h with
  | nil => exact ⟨rfl, rfl⟩
  | keep hmatch hrest ih =>
    obtain ⟨hout, hdraft⟩ := ih
    exact ⟨by rw [hout, List.map_cons], hdraft⟩
  | @fire id o rest p p' q fs out matched replacement rule length hmatch hmatched hrun hrest ih =>
    obtain ⟨hout, hdraft⟩ := ih
    have hrule := RuleSet.mem_of_firstMatch? hmatch
    obtain ⟨rfl, hsame⟩ := hidle rule hrule matched replacement p p' hrun
    rw [carryLine_self, hsame] at hdraft
    refine ⟨?_, hdraft⟩
    rw [hout, hmatched, List.cons_append, ← List.map_append, List.take_append_drop, List.map_cons]

/-- Without rules, a scan copies its source. -/
theorem run_scan_empty (code : List (Handle × Opcode)) (p : Pass σ) :
    (scan {} inner code).run p = .ok (code.map (·.1)) p := by
  induction code with
  | nil =>
    rw [scan]
    rfl
  | cons entry rest ih =>
    rw [scan]
    refine run_bind_eq_ok.2 ⟨p, p, rfl, ?_⟩
    exact run_bind_eq_ok.2 ⟨rest.map (·.1), p, ih, rfl⟩

/-! ### Parts of a pass -/

/-- The source of a scan consists of the live instructions with their opcodes. -/
theorem scanned_eq (p : Pass σ) : p.scanned = p.draft.instrs.filterMap fun id =>
    ((p.draft.pool.get? id).map (·.opcode)).map (id, ·) := by
  rw [scanned, Body.code, List.map_filterMap]
  refine congrFun (congrArg _ (funext fun id => ?_)) _
  rw [Option.map_map, Option.map_map]
  rfl

/-- What is scanned depends on the draft. -/
theorem scanned_congr (h : q.draft = p.draft) : q.scanned = p.scanned := by
  rw [scanned, scanned, h]

/-- The phase of nested units leaves the source of the scan as it was. -/
theorem Nests.scanned_eq {known : List (StoredUnit × StoredUnit)} {ids : List Handle}
    (h : Nests inner source known ids p q) : q.scanned = p.scanned := by
  obtain ⟨hopcodes, hdraft⟩ := h.opcode_eq
  have hinstrs : q.draft.instrs = p.draft.instrs := by rw [hdraft]
  rw [Pass.scanned_eq, Pass.scanned_eq, hinstrs]
  refine congrFun (congrArg _ (funext fun id => ?_)) _
  rw [hopcodes]

/-- To transform the body of a pass is to transform the nested units and to scan. -/
theorem transformBody_eq_ok {d : Draft} :
    (transformBody rules inner source).run p = .ok d q ↔ ∃ p' out,
      Nests inner source [] p.draft.instrs p p' ∧
        (scan rules inner p'.scanned).run p' = .ok out q ∧ { q.draft with instrs := out } = d := by
  constructor
  · intro h
    obtain ⟨_, _, hget, h⟩ := run_bind_eq_ok.1 h
    cases hget
    obtain ⟨_, p', hnested, h⟩ := run_bind_eq_ok.1 h
    obtain ⟨_, _, hget, h⟩ := run_bind_eq_ok.1 h
    cases hget
    obtain ⟨out, _, hscan, h⟩ := run_bind_eq_ok.1 h
    obtain ⟨_, _, hget, h⟩ := run_bind_eq_ok.1 h
    cases hget
    obtain ⟨rfl, rfl⟩ := run_pure_eq_ok.1 h
    exact ⟨p', out, nests_of_run hnested, hscan, rfl⟩
  · rintro ⟨p', out, hnests, hscan, rfl⟩
    refine run_bind_eq_ok.2 ⟨p, p, rfl, ?_⟩
    refine run_bind_eq_ok.2 ⟨(), p', hnests.run_eq_ok, ?_⟩
    refine run_bind_eq_ok.2 ⟨p', p', rfl, ?_⟩
    refine run_bind_eq_ok.2 ⟨out, q, hscan, ?_⟩
    exact run_bind_eq_ok.2 ⟨q, q, rfl, rfl⟩

end Pass

/-- The draft with its new names. -/
def Overrides.apply (o : Overrides) (d : Draft) : Draft :=
  { d with name := o.name.getD d.name, filename := o.filename.getD d.filename }

namespace Transform

variable {rules : RuleSet σ} {options : TransformOptions} {inner inner' : NestedTransform σ}
  {c c' : Routine} {o : Overrides} {world world' : World σ}

/-- **Passes.** A pass succeeds when the nested units are transformed, the scan gets to the end and
    what it has collected is a routine. -/
theorem pass_eq_ok :
    (pass rules options inner c o).run world = .ok c' world' ↔ ∃ p out q,
      Pass.Nests inner c.encoding [] c.instrs (start options c world) p ∧
        (Pass.scan rules inner p.scanned).run p = .ok out q ∧
        Routine.ofDraft? (o.apply { q.draft with instrs := out }) = .ok c' ∧
        { q.world with modes := q.world.modes.leave } = world' := by
  -- Behind the body of the pass only the draft is checked; the modes are left in any case.
  have hbody : ∀ d q, Pass.transformBody rules inner c.encoding (start options c world) = .ok d q ↔
      ∃ p out, Pass.Nests inner c.encoding [] c.instrs (start options c world) p ∧
        (Pass.scan rules inner p.scanned).run p = .ok out q ∧ { q.draft with instrs := out } = d :=
    fun d q => Pass.transformBody_eq_ok
  show pass rules options inner c o world = .ok c' world' ↔ _
  unfold pass
  constructor
  · intro h
    dsimp only at h
    split at h
    · cases h
    · rename_i d q hrun
      obtain ⟨p, out, hnests, hscan, rfl⟩ := (hbody d q).1 hrun
      dsimp only at h
      split at h
      · rename_i c'' hdraft
        cases h
        exact ⟨p, out, q, hnests, hscan, hdraft, rfl⟩
      · cases h
  · rintro ⟨p, out, q, hnests, hscan, hdraft, rfl⟩
    have hrun := (hbody _ q).2 ⟨p, out, hnests, hscan, rfl⟩
    unfold start at hrun
    unfold Overrides.apply at hdraft
    dsimp only at hrun hdraft ⊢
    rw [hrun]
    dsimp only
    rw [hdraft]

/-- A check succeeds in any world, and leaves it alone. -/
theorem run_lift_eq_ok {ε α : Type} {wrap : ε → TransformError} {r : Except ε α} {a : α} :
    (lift wrap r).run world = .ok a world' ↔ r = .ok a ∧ world = world' := by
  cases r with
  | ok b =>
    show (pure b : TransformM σ α).run world = _ ↔ _
    rw [run_pure_eq_ok, Except.ok.injEq]
  | error e =>
    constructor
    · intro h
      cases h
    · rintro ⟨h, -⟩
      cases h

/-- **Nested passes.** A nested pass succeeds when the unit is loaded, its routine is transformed
    and the result is stored. -/
theorem unit_eq_ok {depth : Nat} {stored result : StoredUnit} {e : Encoding} :
    (unit rules options (depth + 1) stored e).run world = .ok result world' ↔ ∃ c out,
      Routine.load? stored e = .ok c ∧
        (pass rules options (unit rules options depth) c {}).run world = .ok out world' ∧
        out.store? options = .ok result := by
  constructor
  · intro h
    obtain ⟨c, _, hlift, h⟩ := run_bind_eq_ok.1 h
    obtain ⟨hload, rfl⟩ := run_lift_eq_ok.1 hlift
    obtain ⟨out, _, hpass, h⟩ := run_bind_eq_ok.1 h
    obtain ⟨hstore, rfl⟩ := run_lift_eq_ok.1 h
    exact ⟨c, out, hload, hpass, hstore⟩
  · rintro ⟨c, out, hload, hpass, hstore⟩
    refine run_bind_eq_ok.2 ⟨c, world, run_lift_eq_ok.2 ⟨hload, rfl⟩, ?_⟩
    exact run_bind_eq_ok.2 ⟨out, world', hpass, run_lift_eq_ok.2 ⟨hstore, rfl⟩⟩

/-! ### Passes that change nothing -/

/-- With idle handlers, a pass has the result of a pass without rules. -/
theorem pass_of_idle (hidle : ∀ rule ∈ rules.rules, rule.handler.Idle inner)
    (himitate : Pass.Imitates inner' inner)
    (h : (pass rules options inner c o).run world = .ok c' world') (w : World σ) :
    ∃ w', (pass {} options inner' c o).run w = .ok c' w' := by
  obtain ⟨p, out, q, hnests, hscan, hdraft, rfl⟩ := pass_eq_ok.1 h
  obtain ⟨rfl, hsame⟩ := (Pass.scans_of_run hscan).of_idle hidle
  have hstart : (start options c w).draft = (start options c world).draft := rfl
  obtain ⟨p', hnests', hsame'⟩ := hnests.imitate himitate hstart
  refine ⟨_, pass_eq_ok.2 ⟨p', _, p', hnests', Pass.run_scan_empty _ _, ?_, rfl⟩⟩
  rw [Pass.scanned_congr hsame', hsame', ← hsame]
  exact hdraft

/-- Nested passes with idle handlers imitate those without rules. -/
theorem imitates_of_idle
    (hidle : ∀ depth, ∀ rule ∈ rules.rules, rule.handler.Idle (unit rules options depth))
    (depth : Nat) : Pass.Imitates (unit {} options depth) (unit rules options depth) := by
  induction depth with
  | zero =>
    intro stored e world result world' h
    cases h
  | succ depth ih =>
    intro stored e world result world' h w
    obtain ⟨c, out, hload, hpass, hstore⟩ := unit_eq_ok.1 h
    obtain ⟨w', hpass'⟩ := pass_of_idle (hidle depth) ih hpass w
    exact ⟨w', unit_eq_ok.2 ⟨c, out, hload, hpass', hstore⟩⟩

/-- **Partition.** A pass that succeeds cuts the source, which the phase of nested units has left in
    place, into stretches.  For a run of one or more instructions a handler fires: that of the first
    rule that matches in the mode which the pass is in by then, with its longest match.  Each
    instruction outside of the runs is copied, since no such rule matches when the scan gets
    there.  The new sequence consists of what takes the place of the stretches, in their order.
    When no handler changes anything, the result is that of a pass without rules, and so are the
    results for nested units. -/
theorem partition_of_pass {depth : Nat}
    (h : (pass rules options (unit rules options depth) c o).run world = .ok c' world') :
    (∃ p ss q, (Pass.nestedPhase (unit rules options depth) c.encoding [] c.instrs).run
        (start options c world) = .ok () p ∧
      p.scanned = c.code.map (fun entry => (entry.1, entry.2.opcode)) ∧
      Pass.Partitions rules (unit rules options depth) p.scanned 0 p ss c'.instrs q ∧
      c'.pool = q.draft.pool ∧ c'.lines = q.draft.lines) ∧
    ((∀ depth, ∀ rule ∈ rules.rules, rule.handler.Idle (unit rules options depth)) →
      (∀ w : World σ, ∃ w', (pass {} options (unit {} options depth) c o).run w = .ok c' w') ∧
      ∀ depth, Pass.Imitates (unit {} options depth) (unit rules options depth)) := by
  constructor
  · obtain ⟨p, out, q, hnests, hscan, hdraft, -⟩ := pass_eq_ok.1 h
    have hsource : p.scanned.drop 0 = p.scanned := List.drop_zero
    obtain ⟨ss, hss⟩ := (Pass.scans_of_run hscan).exists_partitions hsource
    obtain ⟨_, -, hdraft⟩ := bind_eq_ok.1 hdraft
    cases hdraft
    exact ⟨p, ss, q, hnests.run_eq_ok, hnests.scanned_eq, hss, rfl, rfl⟩
  · intro hidle
    exact ⟨pass_of_idle (hidle depth) (imitates_of_idle hidle depth) h, imitates_of_idle hidle⟩

/-- Two rules that put back what they match.  The first one ends the default mode. -/
def watching : RuleSet Nat where
  rules := [{
    name := "result"
    pattern := .seq [.op .loadConst, .op .returnValue]
    matcher := .seq [.cls (· = .loadConst), .cls (· = .returnValue)]
    compiled := rfl
    modes := [{}]
    handler := fun matched => .begin ⟨1⟩ (.setState 5 (.done matched)) }, {
    name := "constant"
    pattern := .op .loadConst
    matcher := .cls (· = .loadConst)
    compiled := rfl
    modes := [{}, ⟨1⟩]
    handler := .done }]

/-- The rules cut the branch into parts, and it comes out as it does without rules. -/
theorem partition_of_pass_watching :
    ∃ c' world', (pass watching {} (unit watching {} 1) Transformer.branch {}).run { state := 0 } =
        .ok c' world' ∧
      (∃ p ss q, Pass.Partitions watching (unit watching {} 1) p.scanned 0 p ss c'.instrs q) ∧
      ∃ w', (pass {} {} (unit {} {} 1) Transformer.branch {}).run { state := 0 } = .ok c' w' := by
  have hrun : ∃ c' world', (pass watching {} (unit watching {} 1) Transformer.branch {}).run
      { state := 0 } = .ok c' world' := by
    have hstate : (match (pass watching {} (unit watching {} 1) Transformer.branch {}).run
        { state := 0 } with
      | .ok _ world => some world.state
      | .error _ _ => none) = some 5 := by decide +kernel
    split at hstate
    · exact ⟨_, _, by assumption⟩
    · cases hstate
  obtain ⟨c', world', hpass⟩ := hrun
  obtain ⟨⟨p, ss, q, -, -, hss, -, -⟩, hsame⟩ := partition_of_pass hpass
  -- One handler counts, the other one ends the mode; both put back what they were given.
  have hidle : ∀ depth, ∀ rule ∈ watching.rules,
      rule.handler.Idle (unit watching {} depth) := by
    intro depth rule hrule matched out p q h
    rcases List.mem_pair.1 hrule with rfl | rfl
    · cases h
      exact ⟨rfl, rfl⟩
    · cases h
      exact ⟨rfl, rfl⟩
  exact ⟨c', world', hpass, ⟨p, ss, q, hss⟩, (hsame hidle).1 { state := 0 }⟩

end Transform

end StackCode

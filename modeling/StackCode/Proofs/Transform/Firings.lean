import StackCode.Proofs.Pool.Deeds
import StackCode.Transform

namespace StackCode

/-!
# Firings

A pass interleaves handlers and copying.  What it does to the pool is told by its firings alone: the
deeds of one handler after the other.  If each firing replaces its run, the scan replaces its
source: what a firing puts in place is of its own run or new, so that no other firing drops it.

What the handlers of a pass do to its pool.

* `Script.deeds` — the deeds of a script that is run, and `Script.deeds_of_run`.
* `Firing` — a run of instructions, what took its place, and the deeds of the handler.
* `Firing.Disciplined` — every instruction that is dropped hands its jumps over to one that takes
  its place, and no jumps are put in place.
* `Pass.hits`, `Pass.firings` — the firings of a scan from left to right, with and without the rules
  that fired.
* `Pass.Scans` — a scan that succeeds, step by step; `Pass.Scans.replaces` says what it leaves.
-/

open Pool (Deed Deeds)

variable {σ : Type} {inner : NestedTransform σ}

/-! ### Scripts -/

namespace Script

/-- The deed of storing an instruction, with its result. -/
def emitting (i : Instr) : Except BuildError Handle → List Deed
  | .ok id => [.emitted id i]
  | .error _ => []

/-- The deed of handing over jumps, with its result. -/
def stealing (thief victim : Handle) : Except BuildError Unit → List Deed
  | .ok () => [.stole thief victim]
  | .error _ => []

/-- The deeds of a script that is run.  Operations that fail are none. -/
def deeds (inner : NestedTransform σ) : Script σ → Pass σ → List Deed
  | .done _, _ => []
  | .fail _, _ => []
  | .look k, p => deeds inner (k p.view) p
  | .emit i k, p =>
    let (r, p) := p.onPool (Pool.insert i)
    emitting i r ++ deeds inner (k r) p
  | .steal thief victim k, p =>
    let (r, p) := p.onPool (Pool.steal thief victim)
    stealing thief victim r ++ deeds inner (k r) p
  | .setLine id line k, p => deeds inner k (p.setLine id line)
  | .begin m k, p =>
    deeds inner k { p with world := { p.world with modes := p.world.modes.begin m } }
  | .setState s k, p => deeds inner k { p with world := { p.world with state := s } }
  | .nested unit k, p =>
    let (r, p) := p.onWorld (inner unit p.draft.encoding)
    deeds inner (k r) p

/-- Storing an instruction does what its deed says, or nothing when it fails. -/
theorem deeds_emitting (p : Pass σ) (i : Instr) :
    Deeds p.draft.pool (emitting i (p.onPool (Pool.insert i)).1)
      (p.onPool (Pool.insert i)).2.draft.pool := by
  unfold Pass.onPool
  rcases Pool.run_insert p.draft.pool i with ⟨e, hrun⟩ | ⟨id, q, hrun, hdeed⟩
  · rw [hrun]
    exact .nil
  · rw [hrun]
    exact .cons hdeed .nil

/-- Stealing does what its deed says, or nothing when it fails. -/
theorem deeds_stealing (p : Pass σ) (thief victim : Handle) :
    Deeds p.draft.pool (stealing thief victim (p.onPool (Pool.steal thief victim)).1)
      (p.onPool (Pool.steal thief victim)).2.draft.pool := by
  unfold Pass.onPool
  rcases Pool.run_steal p.draft.pool thief victim with ⟨e, hrun⟩ | ⟨q, hrun, hdeed⟩
  · rw [hrun]
    exact .nil
  · rw [hrun]
    exact .cons hdeed .nil

/-- What nested passes do is no change of the draft. -/
theorem draft_onWorld {α : Type} (act : TransformM σ α) (p : Pass σ) :
    (p.onWorld act).2.draft = p.draft := by
  unfold Pass.onWorld
  split <;> rfl

/-- **Scripts.** What a script makes of the pool is what its deeds make of it. -/
theorem deeds_of_run {s : Script σ} {p q : Pass σ} {out : List Handle}
    (h : s.run inner p = .ok out q) : Deeds p.draft.pool (s.deeds inner p) q.draft.pool := by
  induction s generalizing p with
  | done ids =>
    cases h
    exact .nil
  | fail e => cases h
  | look k ih => exact ih _ h
  | emit i k ih => exact (deeds_emitting p i).append (ih _ h)
  | steal thief victim k ih => exact (deeds_stealing p thief victim).append (ih _ h)
  | setLine id line k ih => exact ih h
  | begin m k ih => exact ih h
  | setState state k ih => exact ih h
  | nested unit k ih =>
    have hrest : Deeds (p.onWorld (inner unit p.draft.encoding)).2.draft.pool
        ((nested unit k).deeds inner p) q.draft.pool := ih _ h
    rwa [draft_onWorld] at hrest

/-- An action on the pool changes nothing of the draft but the pool. -/
theorem draft_onPool {α : Type} (act : PoolM α) (p : Pass σ) :
    (p.onPool act).2.draft = { p.draft with pool := (p.onPool act).2.draft.pool } := by
  unfold Pass.onPool
  split <;> rfl

/-- A script changes nothing of the draft but its pool and its lines. -/
theorem draft_of_run {s : Script σ} {p q : Pass σ} {out : List Handle}
    (h : s.run inner p = .ok out q) :
    q.draft = { p.draft with pool := q.draft.pool, lines := q.draft.lines } := by
  induction s generalizing p with
  | done ids =>
    cases h
    rfl
  | fail e => cases h
  | look k ih => exact ih _ h
  | emit i k ih =>
    have hrest := ih (p.onPool (Pool.insert i)).1 (p := (p.onPool (Pool.insert i)).2) h
    rwa [draft_onPool] at hrest
  | steal thief victim k ih =>
    have hrest := ih (p.onPool (Pool.steal thief victim)).1
      (p := (p.onPool (Pool.steal thief victim)).2) h
    rwa [draft_onPool] at hrest
  | setLine id line k ih => exact ih (p := p.setLine id line) h
  | begin m k ih =>
    exact ih (p := { p with world := { p.world with modes := p.world.modes.begin m } }) h
  | setState state k ih =>
    exact ih (p := { p with world := { p.world with state := state } }) h
  | nested unit k ih =>
    have hrest := ih (p.onWorld (inner unit p.draft.encoding)).1
      (p := (p.onWorld (inner unit p.draft.encoding)).2) h
    rwa [draft_onWorld] at hrest

end Script

/-! ### Firings -/

/-- A run of instructions for which a rule fired, what took its place, and the deeds of the
    handler. -/
structure Firing where
  matched : List Handle
  replacement : List Handle
  deeds : List Deed
  deriving DecidableEq

/-- The discipline of handlers.  In place of the run they put instructions of the run and new ones
    that do not jump.  They hand over the jumps to all instructions that they drop, and to no
    others, each time to an instruction that they put in place. -/
structure Firing.Disciplined (f : Firing) : Prop where
  nonempty : f.replacement ≠ []
  returned : ∀ id ∈ f.replacement,
    id ∈ f.matched ∨ ∃ i, .emitted id i ∈ f.deeds ∧ i.target? = none
  steals : ∀ thief victim, .stole thief victim ∈ f.deeds →
    thief ∈ f.replacement ∧ victim ∈ f.matched ∧ victim ∉ f.replacement
  stolen : ∀ id ∈ f.matched, id ∉ f.replacement → ∃ thief, .stole thief id ∈ f.deeds

namespace Pass

/-- The rules that fire in a scan, each with its firing, from left to right. -/
def hits (rules : RuleSet σ) (inner : NestedTransform σ) :
    List (Handle × Opcode) → Pass σ → List (Rule σ × Firing)
  | [], _ => []
  | (id, o) :: rest, p =>
    match rules.firstMatch? p.mode (o :: rest.map (·.2)) with
    | none => hits rules inner rest p
    | some (rule, length) =>
      let matched := id :: (rest.take (length - 1)).map (·.1)
      match (rule.handler matched).run inner p with
      | .error _ _ => []
      | .ok replacement q =>
        (rule, ⟨matched, replacement, (rule.handler matched).deeds inner p⟩) ::
          hits rules inner (rest.drop (length - 1))
            { q with draft := carryLine q.draft matched replacement }
termination_by source => source.length
decreasing_by
  · rw [List.length_cons]
    omega
  · rw [List.length_drop, List.length_cons]
    omega

/-- The firings of a scan, from left to right. -/
def firings (rules : RuleSet σ) (inner : NestedTransform σ) (code : List (Handle × Opcode))
    (p : Pass σ) : List Firing := (hits rules inner code p).map (·.2)

section Hits

variable {rules : RuleSet σ} {id : Handle} {o : Opcode} {rest : List (Handle × Opcode)}
  {p q : Pass σ}

/-- No rule fires where there is nothing. -/
theorem hits_nil : hits rules inner [] p = [] := by
  rw [hits]

/-- No rule fires where none matches. -/
theorem hits_of_none (hmatch : rules.firstMatch? p.mode (o :: rest.map (·.2)) = none) :
    hits rules inner ((id, o) :: rest) p = hits rules inner rest p := by
  rw [hits, hmatch]

/-- Where a rule matches and its handler succeeds, it fires. -/
theorem hits_of_some {rule : Rule σ} {length : Nat} {matched replacement : List Handle}
    (hmatch : rules.firstMatch? p.mode (o :: rest.map (·.2)) = some (rule, length))
    (hmatched : matched = id :: (rest.take (length - 1)).map (·.1))
    (hrun : ((rule.handler matched).run inner).run p = .ok replacement q) :
    hits rules inner ((id, o) :: rest) p =
      (rule, ⟨matched, replacement, (rule.handler matched).deeds inner p⟩) ::
        hits rules inner (rest.drop (length - 1))
          { q with draft := carryLine q.draft matched replacement } := by
  subst hmatched
  rw [hits, hmatch]
  dsimp only
  rw [show (rule.handler _).run inner p = .ok replacement q from hrun]

end Hits

end Pass

/-! ### Replacements -/

/-- The deeds turn one pool into another, while `out` takes the place of `source`. -/
structure Replaces (p : Pool) (source : List Handle) (ds : List Deed) (out : List Handle)
    (q : Pool) : Prop where
  deeds : Deeds p ds q
  /-- What is put in place is kept, or new and does not jump. -/
  returned : ∀ id ∈ out, id ∈ source ∨ p.size ≤ id ∧ id < q.size ∧ q.target? id = none
  /-- What is dropped is robbed. -/
  stolen : ∀ id ∈ source, id ∉ out → ∃ thief, .stole thief id ∈ ds
  steals : ∀ thief victim, .stole thief victim ∈ ds → thief ∈ out ∧ victim ∈ source ∧ victim ∉ out

variable {p q r : Pool} {source source' out out' : List Handle} {ds ds' : List Deed}

/-- A disciplined firing replaces its run. -/
theorem Firing.Disciplined.replaces {f : Firing} (h : f.Disciplined) (hp : p.AllNoted)
    (hdeeds : Deeds p f.deeds q) : Replaces p f.matched f.deeds f.replacement q where
  deeds := hdeeds
  returned id hid := by
    rcases h.returned id hid with hmatched | ⟨i, hi, hnone⟩
    · exact .inl hmatched
    · obtain ⟨hle, hlt, hjump⟩ := hdeeds.emitted hp hi
      exact .inr ⟨hle, hlt, hjump hnone⟩
  stolen := h.stolen
  steals := h.steals

namespace Replaces

/-- Instructions that are kept. -/
theorem refl (p : Pool) (source : List Handle) : Replaces p source [] source p where
  deeds := .nil
  returned _ hid := .inl hid
  stolen _ hid hnot := absurd hid hnot
  steals _ _ h := absurd h List.not_mem_nil

/-- **One after the other.** Replacements of two parts of a sequence together replace the whole:
    neither puts in place what the other one drops. -/
theorem append (h : Replaces p source ds out q) (h' : Replaces q source' ds' out' r)
    (hp : p.AllNoted) (hdistinct : (source ++ source').Nodup)
    (hlt : ∀ id ∈ source ++ source', id < p.size) :
    Replaces p (source ++ source') (ds ++ ds') (out ++ out') r := by
  have hq := h.deeds.allNoted hp
  have hgrow := h.deeds.size_le hp
  have hdisjoint := (List.nodup_append.1 hdistinct).2.2
  -- What a part puts in place is its own, or newer than all of the source.
  have hapart : ∀ id, id ∈ source → id ∈ out' → False := by
    intro id hid hout
    rcases h'.returned id hout with hsource | ⟨hle, -, -⟩
    · exact hdisjoint id hid id hsource rfl
    · exact Nat.not_lt.2 (Nat.le_trans hgrow hle) (hlt id (List.mem_append_left _ hid))
  have hapart' : ∀ id, id ∈ source' → id ∈ out → False := by
    intro id hid hout
    rcases h.returned id hout with hsource | ⟨hle, -, -⟩
    · exact hdisjoint id hsource id hid rfl
    · exact Nat.not_lt.2 hle (hlt id (List.mem_append_right _ hid))
  refine ⟨h.deeds.append h'.deeds, fun id hid => ?_, fun id hid hnot => ?_,
    fun thief victim hmem => ?_⟩
  · rcases List.mem_append.1 hid with hid | hid
    · rcases h.returned id hid with hsource | ⟨hle, hlt, hnone⟩
      · exact .inl (List.mem_append_left _ hsource)
      · refine .inr ⟨hle, Nat.lt_of_lt_of_le hlt (h'.deeds.size_le hq), ?_⟩
        rw [h'.deeds.target?_eq hq hlt, hnone, Option.map_none]
    · rcases h'.returned id hid with hsource | ⟨hle, hlt, hnone⟩
      · exact .inl (List.mem_append_right _ hsource)
      · exact .inr ⟨Nat.le_trans hgrow hle, hlt, hnone⟩
  · rw [List.mem_append, not_or] at hnot
    rcases List.mem_append.1 hid with hid | hid
    · obtain ⟨thief, hthief⟩ := h.stolen id hid hnot.1
      exact ⟨thief, List.mem_append_left _ hthief⟩
    · obtain ⟨thief, hthief⟩ := h'.stolen id hid hnot.2
      exact ⟨thief, List.mem_append_right _ hthief⟩
  · rw [List.mem_append, List.mem_append, List.mem_append, not_or]
    rcases List.mem_append.1 hmem with hmem | hmem
    · obtain ⟨hthief, hvictim, hnot⟩ := h.steals thief victim hmem
      exact ⟨.inl hthief, .inl hvictim, hnot, hapart victim hvictim⟩
    · obtain ⟨hthief, hvictim, hnot⟩ := h'.steals thief victim hmem
      exact ⟨.inr hthief, .inr hvictim, hapart' victim hvictim, hnot⟩

/-! #### Jumps -/

section

variable (h : Replaces p source ds out q) {a t : Handle}

include h

/-- Jumps of the old sequence lead to the first thief of their target, if it has one. -/
theorem target?_eq (hp : p.AllNoted) (ha : a < p.size) :
    q.target? a = (p.target? a).map fun t => (Pool.firstThief? ds t).getD t := by
  -- Thieves are put in place, and victims are not.
  have hthieves : ∀ thief victim, .stole thief victim ∈ ds → ∀ other, .stole other thief ∉ ds :=
    fun thief victim hmem other hother =>
      (h.steals other thief hother).2.2 (h.steals thief victim hmem).1
  rw [h.deeds.target?_eq hp ha]
  exact congrFun (congrArg _ (funext (Pool.passOn_eq hthieves))) _

/-- Nobody takes over from what is put in place. -/
theorem firstThief?_of_mem (ht : t ∈ out) : Pool.firstThief? ds t = none :=
  Pool.firstThief?_eq_none.2 fun thief hthief => (h.steals thief t hthief).2.2 ht

/-- Somebody who is put in place takes over from what is dropped. -/
theorem exists_firstThief? (ht : t ∈ source) (hnot : t ∉ out) :
    ∃ thief ∈ out, Pool.firstThief? ds t = some thief := by
  cases hfirst : Pool.firstThief? ds t with
  | none =>
    obtain ⟨thief, hthief⟩ := h.stolen t ht hnot
    exact absurd hthief (Pool.firstThief?_eq_none.1 hfirst thief)
  | some thief =>
    exact ⟨thief, (h.steals thief t (Pool.stole_of_firstThief? hfirst)).1, rfl⟩

/-- **Jumps.** If the jumps of the old sequence lead to instructions of it, then those of the new
    one lead to instructions of the new one. -/
theorem target_mem (hp : p.AllNoted) (hlt : ∀ id ∈ source, id < p.size)
    (hjumps : ∀ a ∈ source, ∀ t, p.target? a = some t → t ∈ source) :
    ∀ a ∈ out, ∀ t, q.target? a = some t → t ∈ out := by
  intro a ha t ht
  rcases h.returned a ha with hsource | ⟨-, -, hnone⟩
  · rw [h.target?_eq hp (hlt a hsource)] at ht
    obtain ⟨old, hold, rfl⟩ := Option.map_eq_some_iff.1 ht
    by_cases hmem : old ∈ out
    · rwa [h.firstThief?_of_mem hmem]
    · obtain ⟨thief, hthief, hfirst⟩ := h.exists_firstThief? (hjumps a hsource old hold) hmem
      rwa [hfirst]
  · rw [hnone] at ht
    cases ht

end

end Replaces

/-! ### Scans -/

/-- A rule that is found is one of the set. -/
theorem RuleSet.mem_of_firstMatch? {s : RuleSet σ} {m : Mode} {window : List Opcode} {rule : Rule σ}
    {n : Nat} (h : s.firstMatch? m window = some (rule, n)) : rule ∈ s.rules := by
  obtain ⟨r, hr, hfound⟩ := List.exists_of_findSome?_eq_some h
  split at hfound
  · obtain ⟨k, -, heq⟩ := Option.map_eq_some_iff.1 hfound
    cases heq
    exact hr
  · cases hfound

namespace Pass

variable {rules : RuleSet σ}

/-- A scan of `code` that succeeds: it starts in one pass, has some firings, collects instructions
    and ends in another pass. -/
inductive Scans (rules : RuleSet σ) (inner : NestedTransform σ) :
    List (Handle × Opcode) → Pass σ → List Firing → List Handle → Pass σ → Prop where
  | nil {p : Pass σ} : Scans rules inner [] p [] [] p
  | keep {id : Handle} {o : Opcode} {rest : List (Handle × Opcode)} {p q : Pass σ}
      {fs : List Firing} {out : List Handle}
      (hmatch : rules.firstMatch? p.mode (o :: rest.map (·.2)) = none)
      (hrest : Scans rules inner rest p fs out q) :
      Scans rules inner ((id, o) :: rest) p fs (id :: out) q
  | fire {id : Handle} {o : Opcode} {rest : List (Handle × Opcode)} {p p' q : Pass σ}
      {fs : List Firing} {out matched replacement : List Handle} {rule : Rule σ} {length : Nat}
      (hmatch : rules.firstMatch? p.mode (o :: rest.map (·.2)) = some (rule, length))
      (hmatched : matched = id :: (rest.take (length - 1)).map (·.1))
      (hrun : (rule.handler matched).run inner p = .ok replacement p')
      (hrest : Scans rules inner (rest.drop (length - 1))
        { p' with draft := carryLine p'.draft matched replacement } fs out q) :
      Scans rules inner ((id, o) :: rest) p
        (⟨matched, replacement, (rule.handler matched).deeds inner p⟩ :: fs) (replacement ++ out) q

/-- A scan that succeeds goes step by step, by its firings. -/
theorem scans_of_run {code : List (Handle × Opcode)} {p q : Pass σ} {out : List Handle}
    (h : (scan rules inner code).run p = .ok out q) :
    Scans rules inner code p (firings rules inner code p) out q := by
  -- The induction is on the length of what is left to go over.
  induction hlen : code.length using Nat.strongRecOn generalizing code p out with
  | ind n ih =>
    cases code with
    | nil =>
      rw [scan] at h
      obtain ⟨rfl, rfl⟩ := run_pure_eq_ok.1 h
      rw [firings, hits_nil]
      exact .nil
    | cons entry rest =>
      obtain ⟨id, o⟩ := entry
      rw [List.length_cons] at hlen
      rw [scan] at h
      obtain ⟨_, _, hget, h⟩ := run_bind_eq_ok.1 h
      cases hget
      cases hmatch : rules.firstMatch? p.mode (o :: rest.map (·.2)) with
      | none =>
        rw [hmatch] at h
        obtain ⟨behind, q', hbehind, h⟩ := run_bind_eq_ok.1 h
        obtain ⟨rfl, rfl⟩ := run_pure_eq_ok.1 h
        rw [firings, hits_of_none hmatch]
        exact .keep hmatch (ih rest.length (by omega) hbehind rfl)
      | some hit =>
        obtain ⟨rule, length⟩ := hit
        rw [hmatch] at h
        obtain ⟨replacement, p', hrun, h⟩ := run_bind_eq_ok.1 h
        obtain ⟨_, _, hmodify, h⟩ := run_bind_eq_ok.1 h
        cases hmodify
        obtain ⟨behind, q', hbehind, h⟩ := run_bind_eq_ok.1 h
        obtain ⟨rfl, rfl⟩ := run_pure_eq_ok.1 h
        have hshort : (rest.drop (length - 1)).length < n := by
          rw [List.length_drop]
          omega
        rw [firings, hits_of_some hmatch rfl hrun]
        exact .fire hmatch rfl hrun (ih _ hshort hbehind rfl)

/-- Carrying a line on leaves the pool alone. -/
theorem pool_carryLine (d : Draft) (matched replacement : List Handle) :
    (carryLine d matched replacement).pool = d.pool := by
  unfold carryLine
  split
  · split
    · rfl
    · split <;> rfl
  · rfl

/-- Carrying a line on leaves everything but the lines alone. -/
theorem draft_carryLine (d : Draft) (matched replacement : List Handle) :
    carryLine d matched replacement =
      { d with lines := (carryLine d matched replacement).lines } := by
  unfold carryLine
  split
  · split
    · rfl
    · split <;> rfl
  · rfl

/-- A scan changes nothing of the draft but its pool and its lines. -/
theorem Scans.draft_eq {code : List (Handle × Opcode)} {p q : Pass σ} {fs : List Firing}
    {out : List Handle} (h : Scans rules inner code p fs out q) :
    q.draft = { p.draft with pool := q.draft.pool, lines := q.draft.lines } := by
  induction h with
  | nil => rfl
  | keep _ _ ih => exact ih
  | fire _ _ hrun _ ih =>
    rw [draft_carryLine, Script.draft_of_run hrun] at ih
    exact ih

/-- **Scans.** When all firings of a scan are disciplined, what it collects replaces what it goes
    over. -/
theorem Scans.replaces {code : List (Handle × Opcode)} {p q : Pass σ} {fs : List Firing}
    {out : List Handle} (h : Scans rules inner code p fs out q)
    (hfirings : ∀ f ∈ fs, f.Disciplined) (hp : p.draft.pool.AllNoted)
    (hdistinct : (code.map (·.1)).Nodup) (hlt : ∀ id ∈ code.map (·.1), id < p.draft.pool.size) :
    Replaces p.draft.pool (code.map (·.1)) (fs.flatMap (·.deeds)) out q.draft.pool := by
  induction h with
  | nil => exact .refl _ _
  | @keep id o rest p q fs out hmatch hrest ih =>
    rw [List.map_cons] at hdistinct hlt ⊢
    have hbehind := ih hfirings hp (List.nodup_cons.1 hdistinct).2 fun id hid =>
      hlt id (List.mem_cons_of_mem _ hid)
    exact (Replaces.refl _ [id]).append hbehind hp hdistinct hlt
  | @fire id o rest p p' q fs out matched replacement rule length hmatch hmatched hrun hrest ih =>
    obtain ⟨hfirst, hfirings⟩ := List.forall_mem_cons.1 hfirings
    have hsource : ((id, o) :: rest).map (·.1) =
        matched ++ (rest.drop (length - 1)).map (·.1) := by
      rw [hmatched, List.map_cons, List.cons_append, ← List.map_append, List.take_append_drop]
    rw [hsource] at hdistinct hlt ⊢
    have hdeeds := Script.deeds_of_run hrun
    -- Behind the run the scan goes on in a larger pool; the lines that moved do not count.
    have hgrow := hdeeds.size_le hp
    have hbehind := ih hfirings (by rw [pool_carryLine]; exact hdeeds.allNoted hp)
      (List.nodup_append.1 hdistinct).2.1 fun id hid => by
        rw [pool_carryLine]
        exact Nat.lt_of_lt_of_le (hlt id (List.mem_append_right _ hid)) hgrow
    rw [pool_carryLine] at hbehind
    exact (hfirst.replaces hp hdeeds).append hbehind hp hdistinct hlt

end Pass

end StackCode

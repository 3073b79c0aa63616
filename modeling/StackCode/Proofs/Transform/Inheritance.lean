import Mathlib.Data.List.Nodup
import Mathlib.Logic.Function.Basic
import StackCode.Proofs.Fallible
import StackCode.Transform.Rule

namespace StackCode.RuleSet

/-!
# Inheritance of rules

Rule sets are made from empty ones by adding rules, inheriting from other sets, and copying.

* `put_eq_set`, `names_put` — a rule of a known name takes the place of that name.
* `get?_extend`, `extend_assoc` — own rules shadow inherited ones, in chains of any length.
* `Call`, `afterCalls` — what is done to a collection of sets, and the sets that are left.
* `inherits_afterCalls` — names, places and shadowing in the sets that any calls leave.
-/

variable {σ : Type} {r : Rule σ} {qs : List (Rule σ)} {s a b c : RuleSet σ}

/-! ### Adding -/

/-- A rule whose name is known changes no name, one whose name is new comes last. -/
theorem names_put (r : Rule σ) (qs : List (Rule σ)) :
    (put r qs).map (·.name) =
      if r.name ∈ qs.map (·.name) then qs.map (·.name) else qs.map (·.name) ++ [r.name] := by
  induction qs with
  | nil => rfl
  | cons q qs ih =>
    by_cases hq : q.name = r.name
    · simp [put, hq]
    · have hr : r.name ≠ q.name := fun h => hq h.symm
      rw [put, if_neg hq, List.map_cons, ih]
      split <;> simp_all

/-- Adding a rule makes no name stand twice. -/
theorem nodup_names_add (h : s.names.Nodup) (r : Rule σ) : (s.add r).names.Nodup := by
  show ((put r s.rules).map (·.name)).Nodup
  rw [names_put]
  split
  · exact h
  · rename_i hnew
    exact h.append (List.nodup_singleton _) (List.disjoint_singleton.2 hnew)

/-- A rule takes the place of its name and leaves the others where they are. -/
theorem put_eq_set (hnodup : (qs.map (·.name)).Nodup) {n : Nat}
    (hn : (qs.map (·.name))[n]? = some r.name) : put r qs = qs.set n r := by
  induction qs generalizing n with
  | nil => cases hn
  | cons q qs ih =>
    obtain ⟨hq, hqs⟩ := List.nodup_cons.1 hnodup
    cases n with
    | zero =>
      have hname : q.name = r.name := by simpa using hn
      rw [put, if_pos hname, List.set_cons_zero]
    | succ n =>
      have hrest : (qs.map (·.name))[n]? = some r.name := by simpa using hn
      -- The name stands further on, so that it is not that of the first rule.
      have hname : q.name ≠ r.name := by
        intro h
        apply hq
        show q.name ∈ qs.map (·.name)
        rw [h]
        exact List.mem_of_getElem? hrest
      rw [put, if_neg hname, ih hqs hrest, List.set_cons_succ]

/-! ### Inheriting -/

/-- There is no rule of a name that does not stand in the set. -/
theorem get?_isNone_iff {name : String} : (s.get? name).isNone = true ↔ name ∉ s.names := by
  simp [get?, names, Option.isNone_iff_eq_none, List.find?_eq_none]

/-- Extending keeps the rules that are there, and appends those of other names. -/
theorem rules_extend (a b : RuleSet σ) :
    (a.extend b).rules = a.rules ++ b.rules.filter (·.name ∉ a.names) := by
  show a.rules ++ b.rules.filter (fun r => (a.get? r.name).isNone) = _
  congr 1
  refine List.filter_congr fun r _ => ?_
  rw [Bool.eq_iff_iff, get?_isNone_iff, decide_eq_true_iff]

/-- Extending makes no name stand twice. -/
theorem nodup_names_extend (ha : a.names.Nodup) (hb : b.names.Nodup) :
    (a.extend b).names.Nodup := by
  show ((a.extend b).rules.map (·.name)).Nodup
  rw [rules_extend, List.map_append]
  refine ha.append (hb.sublist (List.filter_sublist.map _)) ?_
  intro name hname hinherited
  obtain ⟨r, hr, rfl⟩ := List.mem_map.1 hinherited
  exact of_decide_eq_true (List.mem_filter.1 hr).2 hname

/-- Own rules shadow inherited ones. -/
theorem get?_extend (a b : RuleSet σ) (name : String) :
    (a.extend b).get? name = (a.get? name).or (b.get? name) := by
  show (a.rules ++ b.rules.filter (fun r => (a.get? r.name).isNone)).find? (·.name = name) = _
  rw [List.find?_append, List.find?_filter]
  show (a.get? name).or _ = _
  cases hown : a.get? name with
  | some r => rfl
  | none =>
    show b.rules.find? _ = b.rules.find? _
    congr 1
    funext r
    by_cases hr : r.name = name
    · simp [hr, hown]
    · simp [hr]

/-- The names of both sets are there. -/
theorem mem_names_extend {name : String} :
    name ∈ (a.extend b).names ↔ name ∈ a.names ∨ name ∈ b.names := by
  rw [← not_iff_not, not_or, ← get?_isNone_iff, ← get?_isNone_iff, ← get?_isNone_iff, get?_extend]
  simp

/-- What is inherited by way of a set is what is inherited from its base directly. -/
theorem extend_assoc (a b c : RuleSet σ) :
    (a.extend b).extend c = a.extend (b.extend c) := by
  have hrules : ((a.extend b).extend c).rules = (a.extend (b.extend c)).rules := by
    rw [rules_extend, rules_extend, rules_extend, rules_extend, List.filter_append,
      List.append_assoc, List.filter_filter]
    congr 3
    funext r
    simp [mem_names_extend]
  exact congrArg RuleSet.mk hrules

/-! ### Calls -/

/-- What a caller does to sets that go by numbers. -/
inductive Call (σ : Type) where
  | add (set : Nat) (r : Rule σ)
  | rule (set : Nat) (name : String) (pattern : Pattern) (handler : Handler σ)
  /-- The set inherits from `base`. -/
  | extend (set base : Nat)
  /-- The set is replaced with a copy of `original`. -/
  | clone (set original : Nat)

/-- The sets that a call leaves; a rule whose pattern has no matcher changes nothing. -/
def Call.after (sets : Nat → RuleSet σ) : Call σ → Nat → RuleSet σ
  | add i r => Function.update sets i ((sets i).add r)
  | rule i name pattern handler =>
    match (sets i).rule? name pattern handler with
    | .ok s => Function.update sets i s
    | .error _ => sets
  | extend i base => Function.update sets i ((sets i).extend (sets base))
  | clone i original => Function.update sets i (sets original)

/-- The sets that calls leave, one after the other; at first all sets are empty. -/
def afterCalls (calls : List (Call σ)) : Nat → RuleSet σ := calls.foldl Call.after fun _ => {}

/-- A call keeps names apart in every set. -/
theorem Call.nodup_names_after {sets : Nat → RuleSet σ} (h : ∀ i, (sets i).names.Nodup)
    (call : Call σ) (i : Nat) : (call.after sets i).names.Nodup := by
  -- A call changes one set only.
  have hupdate : ∀ (k : Nat) (s : RuleSet σ), s.names.Nodup →
      (Function.update sets k s i).names.Nodup := by
    intro k s hs
    by_cases hi : i = k
    · rw [hi, Function.update_self]
      exact hs
    · rw [Function.update_of_ne hi]
      exact h i
  cases call with
  | add k r => exact hupdate k _ (nodup_names_add (h k) r)
  | rule k name pattern handler =>
    simp only [after]
    cases hrule : (sets k).rule? name pattern handler with
    | ok s =>
      obtain ⟨r, -, rfl⟩ := map_eq_ok.1 hrule
      exact hupdate k _ (nodup_names_add (h k) r)
    | error e => exact h i
  | extend k base => exact hupdate k _ (nodup_names_extend (h k) (h base))
  | clone k original => exact hupdate k _ (h original)

/-- Whatever calls were made, no name stands twice. -/
theorem nodup_names_afterCalls (calls : List (Call σ)) (i : Nat) :
    (afterCalls calls i).names.Nodup := by
  suffices hall : ∀ sets : Nat → RuleSet σ, (∀ i, (sets i).names.Nodup) →
      (calls.foldl Call.after sets i).names.Nodup from hall _ fun _ => List.nodup_nil
  induction calls with
  | nil => exact fun sets h => h i
  | cons call rest ih => exact fun sets h => ih _ (call.nodup_names_after h)

/-- **Inheritance.** In the sets that any calls leave, no two rules of a set have the same name, and
    a rule that is added under a known name takes the place of that name and leaves all others.
    A set that inherits keeps its own rules first and in order, before the rules of the base
    whose names are new, in the order of the base; a name stands for the own rule if there is
    one, and for that of the base otherwise; and it is the same to inherit from two sets one
    after the other, or from the one that has inherited from the other. -/
theorem inherits_afterCalls (calls : List (Call σ)) (i j k : Nat) :
    let a := afterCalls calls i
    let b := afterCalls calls j
    let c := afterCalls calls k
    a.names.Nodup ∧
      (∀ r n, a.names[n]? = some r.name → (a.add r).rules = a.rules.set n r) ∧
      (a.extend b).rules = a.rules ++ b.rules.filter (·.name ∉ a.names) ∧
      (∀ name, (a.extend b).get? name = (a.get? name).or (b.get? name)) ∧
      (a.extend b).extend c = a.extend (b.extend c) := by
  intro a b c
  have hnodup : a.names.Nodup := nodup_names_afterCalls calls i
  exact ⟨hnodup, fun r n hn => put_eq_set hnodup hn, rules_extend a b, get?_extend a b,
    extend_assoc a b c⟩

/-- A rule for any instruction that keeps what it matches. -/
def keeping (name : String) : Rule Unit := ⟨name, .any, .cls fun _ => true, rfl, [{}], .done⟩

/-- A set inherits from another one with which it shares a name, and is copied. -/
def shadowing : List (Call Unit) :=
  [.rule 0 "shared" (.op .nop) .done, .rule 0 "basic" (.op .popTop) .done,
    .rule 0 "unmatched" (.seq []) .done, .add 1 (keeping "own"), .add 1 (keeping "shared"),
    .extend 1 0, .clone 2 1]

/-- The copy has the names of the set, and a rule of the shared name takes its place there. -/
theorem inherits_shadowing :
    (afterCalls shadowing 2).names = ["own", "shared", "basic"] ∧
      ((afterCalls shadowing 2).add (keeping "shared")).rules =
        (afterCalls shadowing 2).rules.set 1 (keeping "shared") := by
  have hnames : (afterCalls shadowing 2).names = ["own", "shared", "basic"] := by decide
  exact ⟨hnames, (inherits_afterCalls shadowing 2 1 0).2.1 _ 1 (by rw [hnames]; rfl)⟩

end StackCode.RuleSet

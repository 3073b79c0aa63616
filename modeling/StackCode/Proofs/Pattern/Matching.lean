import Mathlib.Order.Bounds.Defs
import StackCode.Pattern.Matcher
import StackCode.Proofs.Fallible
import StackCode.Proofs.Pattern.Language

namespace StackCode

/-!
# Matchers decide the languages of patterns

A matcher maps places at which it may start to places at which it may end, without backtracking.  A
repetition goes on only from places that no round has reached before.  Nothing is lost by that:
whatever is reached from a place later on was reached from it in the rounds after its first visit.

* `Matcher.Tracks` — a step on places that follows the words of a language.
* `Matcher.mem_explore`, `Matcher.tracks_repeated` — exploration finds every place that is reached,
  although places which were seen before take no part in it.
* `Matcher.Decides` — a matcher that follows the words of a language in every window.
* `Pattern.decides_of_compile` — the matcher of a pattern decides the language of the pattern.
* `Pattern.longest_of_compile` — it reports the longest run.
-/

namespace Matcher

/-- From every list of places, `step` finds the places at which words of `L` end. -/
def Tracks (window : List Opcode) (L : Language Opcode) (step : List Nat → List Nat) : Prop :=
  ∀ places q, q ∈ step places ↔ ∃ p ∈ places, Spans window L p q

section

variable {window : List Opcode} {L : Language Opcode} {step : List Nat → List Nat}
  {places : List Nat} {seen : Nat}

/-- Dropping repeats from a list of places keeps all places. -/
theorem mem_distinct_zero {ps : List Nat} {q : Nat} : q ∈ distinct 0 ps ↔ q ∈ ps := by
  rw [mem_distinct, Nat.zero_testBit]
  simp

/-- The marks of places are those places. -/
theorem testBit_mark_zero {ps : List Nat} {q : Nat} : (mark 0 ps).testBit q = true ↔ q ∈ ps := by
  rw [testBit_mark, Nat.zero_testBit]
  simp

/-- From no places a step comes to no places. -/
theorem Tracks.step_nil (h : Tracks window L step) : step [] = [] := by
  refine List.eq_nil_iff_forall_not_mem.2 fun q hq => ?_
  obtain ⟨p, hp, -⟩ := (h [] q).1 hq
  cases hp

/-! ### Rounds of a fixed number -/

/-- From no places several steps come to no places. -/
theorem advance_nil (h : Tracks window L step) (n : Nat) : advance step n [] = [] := by
  cases n with
  | zero => rfl
  | succ n => simp [advance, h.step_nil, distinct]

/-- The first of several steps may drop places that it reaches twice. -/
theorem advance_succ (h : Tracks window L step) (n : Nat) :
    advance step (n + 1) places = advance step n (distinct 0 (step places)) := by
  show (if (distinct 0 (step places)).isEmpty then [] else _) = _
  split
  · rename_i hempty
    rw [List.isEmpty_iff.1 hempty, advance_nil h]
  · rfl

/-- **Steps in a row.** The places after some steps are those that as many words of the language
    span from a place before. -/
theorem mem_advance (h : Tracks window L step) (n : Nat) (q : Nat) :
    q ∈ advance step n places ↔ ∃ p ∈ places, Spans window (L ^ n) p q := by
  induction n generalizing places with
  | zero => simp [advance]
  | succ n ih =>
    rw [advance_succ h, ih]
    constructor
    · rintro ⟨r, hr, hrq⟩
      obtain ⟨p, hp, hpr⟩ := (h places r).1 (mem_distinct_zero.1 hr)
      exact ⟨p, hp, spans_pow_succ.2 ⟨r, hpr, hrq⟩⟩
    · rintro ⟨p, hp, hpq⟩
      obtain ⟨r, hpr, hrq⟩ := spans_pow_succ.1 hpq
      exact ⟨r, mem_distinct_zero.2 ((h places r).2 ⟨p, hp, hpr⟩), hrq⟩

/-! ### Exploration -/

/-- Without new places, exploring has come to its end. -/
theorem explore_nil (h : Tracks window L step) (rounds : Nat) :
    explore step rounds seen [] = [] := by
  cases rounds with
  | zero => rfl
  | succ rounds => simp [explore, h.step_nil, distinct]

/-- A round without new places may as well go on, since nothing is found from no places. -/
theorem explore_succ (h : Tracks window L step) (rounds : Nat) :
    explore step (rounds + 1) seen places = distinct seen (step places) ++
      explore step rounds (mark seen (distinct seen (step places)))
        (distinct seen (step places)) := by
  show (if (distinct seen (step places)).isEmpty then [] else _) = _
  split
  · rename_i hempty
    rw [List.isEmpty_iff.1 hempty, explore_nil h]
    rfl
  · rfl

/-- What one round finds is new, or was seen before. -/
theorem testBit_mark_distinct {q : Nat} (hq : q ∈ step places) :
    (mark seen (distinct seen (step places))).testBit q = true := by
  rw [testBit_mark, mem_distinct]
  cases hseen : seen.testBit q with
  | true => exact .inl rfl
  | false => exact .inr ⟨hq, rfl⟩

/-- Exploration finds only what is reached, in at least one round and in no more than are left. -/
theorem spans_of_mem_explore (h : Tracks window L step) {rounds : Nat} {q : Nat}
    (hq : q ∈ explore step rounds seen places) :
    ∃ k ≤ rounds, ∃ p ∈ places, Spans window (L ^ k) p q := by
  induction rounds generalizing seen places with
  | zero => cases hq
  | succ rounds ih =>
    have hfresh : ∀ r ∈ distinct seen (step places), ∃ p ∈ places, Spans window L p r :=
      fun r hr => (h places r).1 ((mem_distinct seen _ r).1 hr).1
    rw [explore_succ h] at hq
    rcases List.mem_append.1 hq with hq | hq
    · obtain ⟨p, hp, hpq⟩ := hfresh q hq
      exact ⟨1, by omega, p, hp, by rwa [pow_one]⟩
    · obtain ⟨k, hk, r, hr, hrq⟩ := ih hq
      obtain ⟨p, hp, hpr⟩ := hfresh r hr
      exact ⟨k + 1, by omega, p, hp, spans_pow_succ.2 ⟨r, hpr, hrq⟩⟩

/-- The invariant of exploration: what is reached in one round from a place that was seen, and is
    not in the frontier `places` any more, was seen. -/
def Closed (window : List Opcode) (L : Language Opcode) (seen : Nat) (places : List Nat) : Prop :=
  ∀ p q, seen.testBit p = true → p ∉ places → Spans window L p q → seen.testBit q = true

/-- A round ends with all that is reached in one round from what was seen before it. -/
theorem testBit_round (h : Tracks window L step) (hclosed : Closed window L seen places)
    {p q : Nat} (hp : seen.testBit p = true) (hpq : Spans window L p q) :
    (mark seen (distinct seen (step places))).testBit q = true := by
  by_cases hplace : p ∈ places
  · exact testBit_mark_distinct ((h places q).2 ⟨p, hplace, hpq⟩)
  · exact (testBit_mark _ _ _).2 (.inl (hclosed p q hp hplace hpq))

/-- Places that are marked stay closed when a round adds those that are one word further on. -/
theorem Closed.round (h : Tracks window L step) (hclosed : Closed window L seen places) :
    Closed window L (mark seen (distinct seen (step places))) (distinct seen (step places)) := by
  intro p q hp hfresh hpq
  -- A place that is not new was seen before the round.
  have hseen : seen.testBit p = true := ((testBit_mark _ _ _).1 hp).resolve_right hfresh
  exact testBit_round h hclosed hseen hpq

/-- Exploration misses nothing: from a place that was seen, all that is reached in the rounds that
    are left was seen, or is found. -/
theorem mem_explore (h : Tracks window L step) {rounds : Nat}
    (hclosed : Closed window L seen places) {k p q : Nat} (hk : k ≤ rounds) (hp : seen.testBit p = true)
    (hpq : Spans window (L ^ k) p q) :
    seen.testBit q = true ∨ q ∈ explore step rounds seen places := by
  induction rounds generalizing seen places k p with
  | zero =>
    obtain rfl : k = 0 := by omega
    rw [pow_zero, spans_one] at hpq
    exact .inl (hpq ▸ hp)
  | succ rounds ih =>
    cases k with
    | zero =>
      rw [pow_zero, spans_one] at hpq
      exact .inl (hpq ▸ hp)
    | succ k =>
      obtain ⟨r, hpr, hrq⟩ := spans_pow_succ.1 hpq
      have hr := testBit_round h hclosed hp hpr
      have hfound := ih (hclosed.round h) (Nat.le_of_succ_le_succ hk) hr hrq
      rw [explore_succ h, List.mem_append]
      rwa [testBit_mark, or_assoc] at hfound

/-! ### Repetition -/

/-- **Repetition.** The rounds of `repeated` find what any admitted number of rounds reaches. -/
theorem tracks_repeated (h : Tracks window L step) {least : Nat} {most : Option Nat}
    (hbounds : ∀ m ∈ most, least ≤ m) :
    Tracks window (repetitions L least most) (repeated step window.length least most) := by
  intro places q
  -- The number of rounds behind the first `least` ones.
  obtain ⟨rounds, hrounds, hmost, henough⟩ : ∃ rounds,
      repeated step window.length least most places = advance step least places ++
        explore step rounds (mark 0 (advance step least places)) (advance step least places) ∧
      (∀ m ∈ most, least + rounds ≤ m) ∧
      ∀ j ≤ window.length, (∀ m ∈ most, least + j ≤ m) → j ≤ rounds := by
    cases most with
    | none =>
      exact ⟨window.length + 1, rfl, by simp, fun j hj _ => by omega⟩
    | some m =>
      have hm : least ≤ m := hbounds m rfl
      refine ⟨min (m - least) (window.length + 1), rfl, ?_, ?_⟩
      · simp only [Option.mem_def, Option.some.injEq, forall_eq']
        omega
      · simp only [Option.mem_def, Option.some.injEq, forall_eq']
        omega
  rw [hrounds, List.mem_append]
  constructor
  · rintro (hq | hq)
    · obtain ⟨p, hp, hpq⟩ := (mem_advance h least q).1 hq
      exact ⟨p, hp, spans_repetitions.2 ⟨least, le_refl _, hbounds, hpq⟩⟩
    · obtain ⟨k, hk, r, hr, hrq⟩ := spans_of_mem_explore h hq
      obtain ⟨p, hp, hpr⟩ := (mem_advance h least r).1 hr
      refine ⟨p, hp, spans_repetitions.2 ⟨least + k, Nat.le_add_right _ _, fun m hm => ?_,
        spans_pow_add.2 ⟨r, hpr, hrq⟩⟩⟩
      have := hmost m hm
      omega
  · rintro ⟨p, hp, hpq⟩
    obtain ⟨k, hleast, hk, hpq⟩ := spans_repetitions.1 hpq
    obtain ⟨k, rfl⟩ := Nat.exists_eq_add_of_le hleast
    obtain ⟨r, hpr, hrq⟩ := spans_pow_add.1 hpq
    have hr : r ∈ advance step least places := (mem_advance h least r).2 ⟨p, hp, hpr⟩
    -- The rounds behind the first ones can be made no more than the window is long.
    obtain ⟨j, hjk, hj, hrq⟩ := hrq.exists_pow_le
    have hjrounds : j ≤ rounds := henough j hj fun m hm => by
      have := hk m hm
      omega
    have hclosed :
        Closed window L (mark 0 (advance step least places)) (advance step least places) :=
      fun p q hp hplace _ => absurd (testBit_mark_zero.1 hp) hplace
    have hfound := mem_explore h hclosed hjrounds (testBit_mark_zero.2 hr) hrq
    rwa [testBit_mark_zero] at hfound

end

/-! ### Matchers -/

/-- In every window, `m` finds the places at which words of `L` end. -/
def Decides (m : Matcher) (L : Language Opcode) : Prop :=
  ∀ window : Array Opcode, Tracks window.toList L (m.ends window)

variable {window : Array Opcode} {places : List Nat} {m : Matcher} {ms : List Matcher}
  {Ls : List (Language Opcode)}

/-- A class steps over one opcode that belongs to it. -/
theorem mem_ends_cls {has : Opcode → Bool} {q : Nat} :
    q ∈ (cls has).ends window places ↔
      ∃ p ∈ places, ∃ o, window[p]? = some o ∧ has o = true ∧ q = p + 1 := by
  rw [ends, List.mem_filterMap]
  refine exists_congr fun p => and_congr_right fun _ => ?_
  cases window[p]? with
  | none => simp
  | some o => simp [@eq_comm _ (p + 1)]

/-- A set of opcodes decides the language of its opcodes. -/
theorem decides_cls {has : Opcode → Bool} {L : Language Opcode}
    (h : ∀ w, w ∈ L ↔ ∃ o, w = [o] ∧ has o = true) : Decides (cls has) L := by
  intro window places q
  rw [mem_ends_cls]
  refine exists_congr fun p => and_congr_right fun _ => ?_
  constructor
  · rintro ⟨o, ho, hhas, rfl⟩
    rw [← Array.getElem?_toList] at ho
    obtain ⟨hp, rfl⟩ := List.getElem?_eq_some_iff.1 ho
    refine ⟨[window.toList[p]], (h _).2 ⟨_, rfl, hhas⟩, ?_, rfl⟩
    rw [List.drop_eq_getElem_cons hp]
    exact ⟨_, rfl⟩
  · rintro ⟨w, hw, ⟨rest, hrest⟩, rfl⟩
    obtain ⟨o, rfl, hhas⟩ := (h w).1 hw
    refine ⟨o, ?_, hhas, rfl⟩
    rw [← Array.getElem?_toList, ← Nat.add_zero p, ← List.getElem?_drop, ← hrest]
    rfl

/-- The words of one opcode are decided by the set. -/
theorem Decides.has_iff {has : Opcode → Bool} {L : Language Opcode} (h : Decides (cls has) L)
    (o : Opcode) : has o = true ↔ [o] ∈ L := by
  have hone : 1 ∈ (cls has).ends #[o] [0] ↔ has o = true := by simp [mem_ends_cls]
  rw [← hone, h #[o] [0] 1]
  simp [spans_zero_iff]

/-! ### Sequences and alternations -/

/-- Matchers in a row step through the product of their languages. -/
theorem tracks_endsAll (h : List.Forall₂ Decides ms Ls) :
    Tracks window.toList Ls.prod (endsAll window ms) := by
  induction h with
  | nil =>
    intro places q
    simp [endsAll]
  | cons hm hms ih =>
    intro places q
    rw [endsAll, ih, List.prod_cons]
    simp only [spans_mul, hm window places]
    grind

/-- A sequence ends where its matchers in a row do, also when it is made of one. -/
theorem ends_ofParts (h : ofParts ms = .ok m) :
    m.ends window places = endsAll window ms places := by
  match ms, h with
  | [_], h =>
    cases h
    simp [endsAll]
  | _ :: _ :: _, h =>
    cases h
    rw [ends]

/-- A choice ends where one of its alternatives does. -/
theorem mem_endsAny {q : Nat} :
    q ∈ endsAny window ms places ↔ ∃ m ∈ ms, q ∈ m.ends window places := by
  induction ms with
  | nil => simp [endsAny]
  | cons m ms ih => simp [endsAny, ih]

/-- Matchers side by side step through the sum of their languages. -/
theorem tracks_endsAny (h : List.Forall₂ Decides ms Ls) :
    Tracks window.toList Ls.sum (endsAny window ms) := by
  induction h with
  | nil =>
    intro places q
    simp [endsAny]
  | cons hm hms ih =>
    intro places q
    rw [endsAny, List.mem_append, ih, hm window places, List.sum_cons]
    simp only [spans_add]
    grind

/-- Matchers that all have sets are classes. -/
theorem eq_map_cls {sets : List (Opcode → Bool)} (h : ms.mapM set? = some sets) :
    ms = sets.map cls := by
  induction ms generalizing sets with
  | nil =>
    cases h
    rfl
  | cons m ms ih =>
    rw [List.mapM_cons] at h
    obtain ⟨has, hhas, h⟩ := Option.bind_eq_some_iff.1 h
    obtain ⟨sets, hsets, h⟩ := Option.bind_eq_some_iff.1 h
    cases h
    cases m <;> cases hhas
    rw [List.map_cons, ← ih hsets]

/-- Whichever form the alternatives take, runs end where those of one of them end. -/
theorem mem_ends_ofAlternatives {q : Nat} (h : ofAlternatives ms = .ok m) :
    q ∈ m.ends window places ↔ q ∈ endsAny window ms places := by
  unfold ofAlternatives at h
  split at h
  · cases h
  split at h
  · -- Sets are joined to one set, which steps over an opcode when one of them does.
    rename_i sets hsets
    cases h
    rw [eq_map_cls hsets, mem_endsAny, mem_ends_cls]
    simp only [List.mem_map, union, List.any_eq_true]
    constructor
    · rintro ⟨p, hp, o, ho, ⟨has, hhas, hset⟩, hq⟩
      exact ⟨_, ⟨has, hhas, rfl⟩, mem_ends_cls.2 ⟨p, hp, o, ho, hset, hq⟩⟩
    · rintro ⟨_, ⟨has, hhas, rfl⟩, hq⟩
      obtain ⟨p, hp, o, ho, hset, hq⟩ := mem_ends_cls.1 hq
      exact ⟨p, hp, o, ho, ⟨has, hhas, hset⟩, hq⟩
  · split at h
    · cases h
      simp [endsAny]
    · cases h
      rw [ends, mem_distinct_zero]

/-! ### The longest run -/

/-- The longest match is the last end that is not the start. -/
theorem longest?_eq_some {window : List Opcode} {n : Nat} :
    m.longest? window = some n ↔
      0 < n ∧ n ∈ m.ends window.toArray [0] ∧ ∀ k ∈ m.ends window.toArray [0], k ≤ n := by
  unfold longest?
  rw [← List.max?_eq_some_iff]
  cases (m.ends window.toArray [0]).max? with
  | none => simp
  | some k =>
    simp only [Option.ite_none_left_eq_some, Option.some.injEq]
    omega

/-- There is no match when nothing but the start is an end. -/
theorem longest?_eq_none {window : List Opcode} :
    m.longest? window = none ↔ ∀ n ∈ m.ends window.toArray [0], n = 0 := by
  unfold longest?
  cases hmax : (m.ends window.toArray [0]).max? with
  | none =>
    rw [List.max?_eq_none_iff] at hmax
    simp [hmax]
  | some k =>
    obtain ⟨hk, hle⟩ := List.max?_eq_some_iff.1 hmax
    simp only [ite_eq_left_iff, reduceCtorEq, imp_false, not_not]
    constructor
    · intro hzero n hn
      have := hle n hn
      omega
    · exact fun h => h k hk

/-- Bounds are in order when the upper one is neither below the lower one nor zero. -/
theorem checkBounds_eq_ok {least : Nat} {most : Option Nat} :
    checkBounds least most = .ok () ↔ ∀ m ∈ most, least ≤ m ∧ m ≠ 0 := by
  cases most with
  | none => simp [checkBounds]
  | some m =>
    unfold checkBounds
    simp only [Option.mem_def, Option.some.injEq, forall_eq']
    split
    · simp
      omega
    · split
      · simp
        omega
      · simp
        omega

end Matcher

/-! ### Patterns -/

namespace Pattern

open Matcher

mutual

/-- **Compilation.** The matcher of a pattern decides the language of the pattern. -/
theorem decides_of_compile : (p : Pattern) → {m : Matcher} → p.compile? = .ok m →
    m.Decides p.language
  | op o, m, h => by
    cases h
    refine decides_cls fun w => ?_
    simp
  | any, m, h => by
    cases h
    refine decides_cls fun w => ?_
    simp [List.length_eq_one_iff]
  -- A negation compiles only for a set, whose language is one of single opcodes.
  | not p, m, h => by
    obtain ⟨inner, hinner, h⟩ := bind_eq_ok.1 h
    have hp := decides_of_compile p hinner
    cases inner with
    | cls has =>
      cases h
      refine decides_cls fun w => ?_
      rw [mem_language_not, List.length_eq_one_iff]
      constructor
      · rintro ⟨⟨o, rfl⟩, hnot⟩
        refine ⟨o, rfl, ?_⟩
        rw [← hp.has_iff, Bool.not_eq_true] at hnot
        rw [hnot, Bool.not_false]
      · rintro ⟨o, rfl, hhas⟩
        refine ⟨⟨o, rfl⟩, ?_⟩
        rwa [← hp.has_iff, Bool.not_eq_true, ← Bool.not_eq_true']
    | seq | alt | rep => cases h
  | seq ps, m, h => by
    obtain ⟨ms, hms, h⟩ := bind_eq_ok.1 h
    have hps := decides_of_compileList ps hms
    intro window places q
    rw [ends_ofParts h, language, tracks_endsAll hps]
  | alt ps, m, h => by
    obtain ⟨ms, hms, h⟩ := bind_eq_ok.1 h
    have hps := decides_of_compileList ps hms
    intro window places q
    rw [mem_ends_ofAlternatives h, language, tracks_endsAny hps]
  | rep p least most, m, h => by
    obtain ⟨_, hbounds, h⟩ := bind_eq_ok.1 h
    obtain ⟨inner, hinner, h⟩ := bind_eq_ok.1 h
    cases h
    intro window places q
    rw [ends, language]
    exact tracks_repeated (decides_of_compile p hinner window)
      (fun m hm => (checkBounds_eq_ok.1 hbounds m hm).1) places q

/-- **Lists.** The matchers of a list decide the languages of its patterns. -/
theorem decides_of_compileList : (ps : List Pattern) → {ms : List Matcher} →
    compileList? ps = .ok ms → List.Forall₂ Decides ms (languages ps)
  | [], ms, h => by
    cases h
    exact .nil
  | p :: ps, ms, h => by
    obtain ⟨m, hm, h⟩ := bind_eq_ok.1 h
    obtain ⟨ms, hms, h⟩ := bind_eq_ok.1 h
    cases h
    exact .cons (decides_of_compile p hm) (decides_of_compileList ps hms)

end

variable {p : Pattern} {m : Matcher}

/-- **Ends.** A compiled pattern ends at the lengths of the beginnings of the window that belong to
    its language. -/
theorem mem_ends_start (h : p.compile? = .ok m) {window : List Opcode} {n : Nat} :
    n ∈ m.ends window.toArray [0] ↔ n ≤ window.length ∧ window.take n ∈ p.language := by
  rw [decides_of_compile p h window.toArray [0] n]
  simp [spans_zero_iff]

/-- **Longest runs.** The matcher of a pattern reports `n` exactly when `n` is the greatest positive
    number of opcodes at the start of the window that are a word of the pattern, and nothing
    exactly when there is no such number. -/
theorem longest_of_compile (h : p.compile? = .ok m) (window : List Opcode) :
    (∀ n, m.longest? window = some n ↔
      IsGreatest {n | 0 < n ∧ n ≤ window.length ∧ window.take n ∈ p.language} n) ∧
    (m.longest? window = none ↔
      ∀ n, 0 < n → n ≤ window.length → window.take n ∉ p.language) := by
  constructor
  · intro n
    rw [longest?_eq_some, mem_ends_start h]
    simp only [mem_ends_start h]
    constructor
    · rintro ⟨hpos, hn, hgreatest⟩
      exact ⟨⟨hpos, hn⟩, fun k ⟨_, hk⟩ => hgreatest k hk⟩
    · rintro ⟨⟨hpos, hn⟩, hgreatest⟩
      refine ⟨hpos, hn, fun k hk => ?_⟩
      -- Only the empty run is left out of the set.
      rcases Nat.eq_zero_or_pos k with rfl | hkpos
      · exact Nat.zero_le n
      · exact hgreatest ⟨hkpos, hk⟩
  · rw [longest?_eq_none]
    simp only [mem_ends_start h]
    constructor
    · intro hzero n hpos hn hw
      have := hzero n ⟨hn, hw⟩
      omega
    · rintro hnone n ⟨hn, hw⟩
      by_contra hne
      exact hnone n (Nat.pos_of_ne_zero hne) hn hw

/-- Repetitions of a part that may be empty, behind a negated set. -/
def nestedRepetition : Pattern :=
  seq [not (alt [op .nop, op .popTop]), rep (alt [seq [op .nop], optional (op .popTop)]) 2 none,
    between (seq [any, op .returnValue]) 1 2]

/-- Its longest match in this window goes through all of the repetitions, and leaves the last opcode
    out. -/
theorem longest_nestedRepetition :
    ∃ m, nestedRepetition.compile? = .ok m ∧
      IsGreatest {n | 0 < n ∧ n ≤ 6 ∧
        [.loadFast, .nop, .popTop, .nop, .returnValue, .nop].take n ∈ nestedRepetition.language}
        5 := by
  refine ⟨_, rfl, ?_⟩
  exact ((longest_of_compile rfl [.loadFast, .nop, .popTop, .nop, .returnValue, .nop]).1 5).1
    (by decide +kernel)

end Pattern

end StackCode

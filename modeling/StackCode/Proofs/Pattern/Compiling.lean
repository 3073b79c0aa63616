import StackCode.Proofs.Pattern.Matching

namespace StackCode

/-!
# Patterns that have a matcher

Whether a pattern compiles depends on its parts, and whether it may be negated depends on what the
parts compile to.  So each form of pattern has two lemmas, one for any matcher and one for sets, and
the induction over trees proves both statements at once.

* `Pattern.IsClass` — a pattern of one instruction, told by its tree alone.
* `Pattern.Occurs`, `Pattern.WellFormed` — the patterns in a pattern, and what is asked of them.
* `Matcher.exists_ofParts_cls`, `Matcher.exists_ofAlternatives_cls` — when parts and alternatives
  become one set of opcodes.
* `Pattern.compiles_iff_wellFormed` — the well formed patterns have a matcher, and the classes
  among them one set.
-/

namespace Pattern

/-- The pattern describes runs of one instruction by its tree. -/
inductive IsClass : Pattern → Prop where
  | op (o : Opcode) : IsClass (op o)
  | any : IsClass any
  | not {p : Pattern} : IsClass p → IsClass (not p)
  | seq {p : Pattern} : IsClass p → IsClass (seq [p])
  | alt {ps : List Pattern} : ps ≠ [] → (∀ p ∈ ps, IsClass p) → IsClass (alt ps)

/-- The patterns that a pattern is built from directly. -/
def parts : Pattern → List Pattern
  | op _ | any => []
  | not p | rep p _ _ => [p]
  | seq ps | alt ps => ps

/-- The pattern `q` stands in a pattern: it is the whole, or stands in a part. -/
inductive Occurs (q : Pattern) : Pattern → Prop where
  | whole : Occurs q q
  | part {p r : Pattern} : p ∈ r.parts → Occurs q p → Occurs q r

/-- What is asked of a pattern wherever it stands: sequences and alternations are not empty, the
    bounds of a repetition are in order and allow an instruction, and what is negated is a
    class. -/
def Admissible : Pattern → Prop
  | op _ | any => True
  | not p => p.IsClass
  | seq ps | alt ps => ps ≠ []
  | rep _ least most => ∀ m ∈ most, least ≤ m ∧ m ≠ 0

/-- Every pattern that stands in `p` is admissible. -/
def WellFormed (p : Pattern) : Prop := ∀ q, Occurs q p → q.Admissible

/-- A pattern is well-formed when it is admissible by itself and its parts are well-formed. -/
theorem wellFormed_iff {p : Pattern} :
    p.WellFormed ↔ p.Admissible ∧ ∀ q ∈ p.parts, q.WellFormed := by
  constructor
  · intro h
    exact ⟨h p .whole, fun q hq r hr => h r (.part hq hr)⟩
  · rintro ⟨hp, hparts⟩ q hq
    cases hq with
    | whole => exact hp
    | part hr hq => exact hparts _ hr q hq

mutual

/-- Induction over the tree of a pattern: what passes from the parts to the whole holds. -/
theorem induction_parts {motive : Pattern → Prop}
    (step : ∀ p, (∀ q ∈ p.parts, motive q) → motive p) : (p : Pattern) → motive p
  | op _ => step _ nofun
  | any => step _ nofun
  | not p => step _ (List.forall_mem_singleton.2 (induction_parts step p))
  | seq ps => step _ (induction_list step ps)
  | alt ps => step _ (induction_list step ps)
  | rep p _ _ => step _ (List.forall_mem_singleton.2 (induction_parts step p))

/-- The parts of all members of a list are covered by the step for single patterns. -/
theorem induction_list {motive : Pattern → Prop}
    (step : ∀ p, (∀ q ∈ p.parts, motive q) → motive p) : (ps : List Pattern) → ∀ q ∈ ps, motive q
  | [] => nofun
  | p :: ps => List.forall_mem_cons.2 ⟨induction_parts step p, induction_list step ps⟩

end

end Pattern

/-! ### Parts and alternatives -/

namespace Matcher

variable {ms : List Matcher}

/-- A sequence can be made of any matchers but none. -/
theorem exists_ofParts : (∃ m, ofParts ms = .ok m) ↔ ms ≠ [] := by
  match ms with
  | [] => simp [ofParts]
  | [_] => simp [ofParts]
  | _ :: _ :: _ => simp [ofParts]

/-- Parts become a set when there is one of them, and it is a set. -/
theorem exists_ofParts_cls :
    (∃ has, ofParts ms = .ok (cls has)) ↔ ∃ has, ms = [cls has] := by
  match ms with
  | [] => simp [ofParts]
  | [_] => simp [ofParts]
  | _ :: _ :: _ => simp [ofParts]

/-- The sets of matchers can be told when all of them are sets. -/
theorem exists_mapM_set? :
    (∃ sets, ms.mapM set? = some sets) ↔ ∀ m ∈ ms, ∃ has, m = cls has := by
  constructor
  · rintro ⟨sets, hsets⟩ m hm
    rw [eq_map_cls hsets] at hm
    obtain ⟨has, -, rfl⟩ := List.mem_map.1 hm
    exact ⟨has, rfl⟩
  · intro h
    induction ms with
    | nil => exact ⟨[], rfl⟩
    | cons m ms ih =>
      obtain ⟨has, rfl⟩ := h m List.mem_cons_self
      obtain ⟨sets, hsets⟩ := ih fun m hm => h m (List.mem_cons_of_mem _ hm)
      exact ⟨has :: sets, by rw [List.mapM_cons, hsets]; rfl⟩

/-- A choice can be made of any matchers but none. -/
theorem exists_ofAlternatives : (∃ m, ofAlternatives ms = .ok m) ↔ ms ≠ [] := by
  cases ms with
  | nil => simp [ofAlternatives]
  | cons m ms =>
    simp only [ofAlternatives, List.isEmpty_cons, Bool.false_eq_true, if_false, ne_eq,
      reduceCtorEq, not_false_eq_true, iff_true]
    split
    · exact ⟨_, rfl⟩
    · cases ms <;> exact ⟨_, rfl⟩

/-- Alternatives become a set when all of them are sets. -/
theorem exists_ofAlternatives_cls :
    (∃ has, ofAlternatives ms = .ok (cls has)) ↔
      ms ≠ [] ∧ ∀ m ∈ ms, ∃ has, m = cls has := by
  rw [← exists_mapM_set?]
  constructor
  · rintro ⟨has, h⟩
    refine ⟨exists_ofAlternatives.1 ⟨_, h⟩, ?_⟩
    unfold ofAlternatives at h
    split at h
    · cases h
    split at h
    · rename_i sets hsets
      exact ⟨sets, hsets⟩
    · -- A single alternative that is no set is its own matcher, and stays no set.
      rename_i hnone
      split at h
      · cases h
        cases hnone
      · cases h
  · rintro ⟨hne, sets, hsets⟩
    refine ⟨union sets, ?_⟩
    unfold ofAlternatives
    rw [if_neg (by rwa [List.isEmpty_iff])]
    simp only [hsets]

end Matcher

/-! ### The parts of a compilation -/

namespace Pattern

variable {p : Pattern} {ps : List Pattern} {m : Matcher} {ms : List Matcher}

/-- Compiling a list compiles its members one by one. -/
theorem compileList?_eq_mapM (ps : List Pattern) : compileList? ps = ps.mapM compile? := by
  induction ps with
  | nil => rfl
  | cons p ps ih => rw [compileList?, List.mapM_cons, ih]

/-- Several patterns have matchers of a kind when each of them has one. -/
theorem exists_compileList? {P : Matcher → Prop} :
    (∃ ms, compileList? ps = .ok ms ∧ ∀ m ∈ ms, P m) ↔
      ∀ p ∈ ps, ∃ m, p.compile? = .ok m ∧ P m := by
  simp only [compileList?_eq_mapM, mapM_eq_ok]
  induction ps with
  | nil => simp
  | cons p ps ih =>
    rw [List.forall_mem_cons, ← ih]
    simp only [List.forall₂_cons_left_iff]
    constructor
    · rintro ⟨_, ⟨m, ms, hm, hms, rfl⟩, hP⟩
      rw [List.forall_mem_cons] at hP
      exact ⟨⟨m, hm, hP.1⟩, ms, hms, hP.2⟩
    · rintro ⟨⟨m, hm, hPm⟩, ms, hms, hPms⟩
      exact ⟨m :: ms, ⟨m, ms, hm, hms, rfl⟩, List.forall_mem_cons.2 ⟨hPm, hPms⟩⟩

/-- A list of matchers is empty only where the list of patterns is. -/
theorem ne_nil_of_compileList? (h : compileList? ps = .ok ms) : ms ≠ [] ↔ ps ≠ [] := by
  rw [compileList?_eq_mapM] at h
  rw [← List.length_pos_iff, ← List.length_pos_iff, length_of_mapM_eq_ok h]

/-- Where the matchers of several patterns are put together, there is a matcher when they are not
    empty and each of them has one. -/
theorem exists_compileList?_bind {f : List Matcher → Except PatternError Matcher}
    (hf : ∀ ms, (∃ m, f ms = .ok m) ↔ ms ≠ []) :
    (∃ m, compileList? ps >>= f = .ok m) ↔
      ps ≠ [] ∧ ∀ p ∈ ps, ∃ m, p.compile? = .ok m := by
  have hall : (∃ ms, compileList? ps = .ok ms) ↔ ∀ p ∈ ps, ∃ m, p.compile? = .ok m := by
    simpa using @exists_compileList? ps fun _ => True
  rw [← hall]
  constructor
  · rintro ⟨m, h⟩
    obtain ⟨ms, hms, hm⟩ := bind_eq_ok.1 h
    exact ⟨(ne_nil_of_compileList? hms).1 ((hf ms).1 ⟨m, hm⟩), ms, hms⟩
  · rintro ⟨hne, ms, hms⟩
    obtain ⟨m, hm⟩ := (hf ms).2 ((ne_nil_of_compileList? hms).2 hne)
    exact ⟨m, bind_eq_ok.2 ⟨ms, hms, hm⟩⟩

/-- A sequence compiles when it has parts and all of them do. -/
theorem exists_compile?_seq :
    (∃ m, (seq ps).compile? = .ok m) ↔ ps ≠ [] ∧ ∀ p ∈ ps, ∃ m, p.compile? = .ok m :=
  exists_compileList?_bind fun _ => Matcher.exists_ofParts

/-- A choice compiles when it has alternatives and all of them do. -/
theorem exists_compile?_alt :
    (∃ m, (alt ps).compile? = .ok m) ↔ ps ≠ [] ∧ ∀ p ∈ ps, ∃ m, p.compile? = .ok m :=
  exists_compileList?_bind fun _ => Matcher.exists_ofAlternatives

/-- A sequence compiles to a class only when it is a single class. -/
theorem exists_compile?_seq_cls :
    (∃ has, (seq ps).compile? = .ok (.cls has)) ↔
      ∃ p, ps = [p] ∧ ∃ has, p.compile? = .ok (.cls has) := by
  constructor
  · rintro ⟨has, h⟩
    obtain ⟨ms, hms, hm⟩ := bind_eq_ok.1 h
    obtain ⟨has, rfl⟩ := Matcher.exists_ofParts_cls.1 ⟨has, hm⟩
    rw [compileList?_eq_mapM, mapM_eq_ok] at hms
    obtain ⟨p, _, hp, hnil, rfl⟩ := List.forall₂_cons_right_iff.1 hms
    rw [List.forall₂_nil_right_iff.1 hnil]
    exact ⟨p, rfl, has, hp⟩
  · rintro ⟨p, rfl, has, hp⟩
    refine ⟨has, bind_eq_ok.2 ⟨[.cls has], ?_, rfl⟩⟩
    rw [compileList?_eq_mapM, mapM_eq_ok]
    exact .cons hp .nil

/-- A choice compiles to a class when all of its alternatives do. -/
theorem exists_compile?_alt_cls :
    (∃ has, (alt ps).compile? = .ok (.cls has)) ↔
      ps ≠ [] ∧ ∀ p ∈ ps, ∃ has, p.compile? = .ok (.cls has) := by
  -- The matchers of the alternatives are sets when each of them is.
  have hall : (∃ ms, compileList? ps = .ok ms ∧ ∀ m ∈ ms, ∃ has, m = .cls has) ↔
      ∀ p ∈ ps, ∃ has, p.compile? = .ok (.cls has) := by
    rw [exists_compileList?]
    refine forall₂_congr fun p _ => ⟨?_, ?_⟩
    · rintro ⟨_, hp, has, rfl⟩
      exact ⟨has, hp⟩
    · rintro ⟨has, hp⟩
      exact ⟨_, hp, has, rfl⟩
  rw [← hall]
  constructor
  · rintro ⟨has, h⟩
    obtain ⟨ms, hms, hm⟩ := bind_eq_ok.1 h
    obtain ⟨hne, hcls⟩ := Matcher.exists_ofAlternatives_cls.1 ⟨has, hm⟩
    exact ⟨(ne_nil_of_compileList? hms).1 hne, ms, hms, hcls⟩
  · rintro ⟨hne, ms, hms, hcls⟩
    obtain ⟨has, hm⟩ :=
      Matcher.exists_ofAlternatives_cls.2 ⟨(ne_nil_of_compileList? hms).2 hne, hcls⟩
    exact ⟨has, bind_eq_ok.2 ⟨ms, hms, hm⟩⟩

/-- A complement compiles when its pattern is a class, to the opcodes outside of it. -/
theorem compile?_not_eq_ok :
    (not p).compile? = .ok m ↔
      ∃ has, p.compile? = .ok (.cls has) ∧ m = .cls fun o => !has o := by
  constructor
  · intro h
    obtain ⟨inner, hinner, h⟩ := bind_eq_ok.1 h
    cases inner with
    | cls has =>
      cases h
      exact ⟨has, hinner, rfl⟩
    | seq | alt | rep => cases h
  · rintro ⟨has, hinner, rfl⟩
    exact bind_eq_ok.2 ⟨.cls has, hinner, rfl⟩

/-- A repetition compiles when its bounds are in order and its pattern compiles. -/
theorem compile?_rep_eq_ok {least : Nat} {most : Option Nat} :
    (rep p least most).compile? = .ok m ↔
      (∀ b ∈ most, least ≤ b ∧ b ≠ 0) ∧ ∃ inner, p.compile? = .ok inner ∧
        m = .rep inner least most := by
  rw [← Matcher.checkBounds_eq_ok]
  constructor
  · intro h
    obtain ⟨_, hbounds, h⟩ := bind_eq_ok.1 h
    obtain ⟨inner, hinner, h⟩ := bind_eq_ok.1 h
    cases h
    exact ⟨hbounds, inner, hinner, rfl⟩
  · rintro ⟨hbounds, inner, hinner, rfl⟩
    exact bind_eq_ok.2 ⟨(), hbounds, bind_eq_ok.2 ⟨inner, hinner, rfl⟩⟩

/-- The negation of a pattern has a matcher, a set again, when the matcher of the pattern is a
    set. -/
theorem exists_compile?_not :
    (∃ m, (not p).compile? = .ok m) ↔ ∃ has, p.compile? = .ok (.cls has) := by
  constructor
  · rintro ⟨m, h⟩
    obtain ⟨has, hp, -⟩ := compile?_not_eq_ok.1 h
    exact ⟨has, hp⟩
  · rintro ⟨has, hp⟩
    exact ⟨_, compile?_not_eq_ok.2 ⟨has, hp, rfl⟩⟩

/-- A complement is a class whenever it compiles. -/
theorem exists_compile?_not_cls :
    (∃ has, (not p).compile? = .ok (.cls has)) ↔ ∃ has, p.compile? = .ok (.cls has) := by
  constructor
  · rintro ⟨_, h⟩
    exact exists_compile?_not.1 ⟨_, h⟩
  · rintro ⟨has, hp⟩
    exact ⟨_, compile?_not_eq_ok.2 ⟨has, hp, rfl⟩⟩

/-- Whether a repetition compiles does not depend on the kind of its pattern. -/
theorem exists_compile?_rep {least : Nat} {most : Option Nat} :
    (∃ m, (rep p least most).compile? = .ok m) ↔
      (∀ b ∈ most, least ≤ b ∧ b ≠ 0) ∧ ∃ m, p.compile? = .ok m := by
  constructor
  · rintro ⟨m, h⟩
    obtain ⟨hbounds, inner, hp, -⟩ := compile?_rep_eq_ok.1 h
    exact ⟨hbounds, inner, hp⟩
  · rintro ⟨hbounds, inner, hp⟩
    exact ⟨_, compile?_rep_eq_ok.2 ⟨hbounds, inner, hp, rfl⟩⟩

/-! ### Well formed patterns -/

/-- A complement is a class when it is that of a class. -/
theorem isClass_not : (not p).IsClass ↔ p.IsClass :=
  ⟨fun h => by cases h; assumption, .not⟩

/-- A sequence is a class when it consists of one. -/
theorem isClass_seq : (seq ps).IsClass ↔ ∃ p, ps = [p] ∧ p.IsClass := by
  constructor
  · intro h
    cases h with
    | seq h => exact ⟨_, rfl, h⟩
  · rintro ⟨p, rfl, h⟩
    exact .seq h

/-- A choice is a class when it consists of classes alone. -/
theorem isClass_alt : (alt ps).IsClass ↔ ps ≠ [] ∧ ∀ p ∈ ps, p.IsClass :=
  ⟨fun h => by cases h; constructor <;> assumption, fun h => .alt h.1 h.2⟩

/-- **Compilation.** A pattern has a matcher exactly when it is well formed: no sequence or
    alternation in it is empty, the bounds of its repetitions are in order and allow an
    instruction, and what it negates is a class.  The matcher is a single set of opcodes exactly
    when the pattern is a class. -/
theorem compiles_iff_wellFormed (p : Pattern) :
    ((∃ m, p.compile? = .ok m) ↔ p.WellFormed) ∧
      ((∃ has, p.compile? = .ok (.cls has)) ↔ p.IsClass) := by
  induction p using induction_parts with
  | step p ih =>
    rw [wellFormed_iff]
    cases p with
    | op o =>
      exact ⟨⟨fun _ => ⟨trivial, nofun⟩, fun _ => ⟨_, rfl⟩⟩, fun _ => .op o, fun _ => ⟨_, rfl⟩⟩
    | any =>
      exact ⟨⟨fun _ => ⟨trivial, nofun⟩, fun _ => ⟨_, rfl⟩⟩, fun _ => .any, fun _ => ⟨_, rfl⟩⟩
    | not p =>
      obtain ⟨hwell, hclass⟩ := ih p List.mem_cons_self
      rw [exists_compile?_not, exists_compile?_not_cls, isClass_not, hclass]
      refine ⟨⟨fun h => ⟨h, List.forall_mem_singleton.2 ?_⟩, fun h => h.1⟩, Iff.rfl⟩
      -- A class has a matcher, so that nothing else is asked of what stands in it.
      obtain ⟨has, hhas⟩ := hclass.2 h
      exact hwell.1 ⟨_, hhas⟩
    | seq ps =>
      have hwell : (∀ p ∈ ps, ∃ m, p.compile? = .ok m) ↔ ∀ p ∈ ps, p.WellFormed :=
        forall₂_congr fun p hp => (ih p hp).1
      rw [exists_compile?_seq, exists_compile?_seq_cls, isClass_seq, hwell]
      refine ⟨Iff.rfl, exists_congr fun p => and_congr_right fun hp => ?_⟩
      exact (ih p (hp ▸ List.mem_cons_self)).2
    | alt ps =>
      have hwell : (∀ p ∈ ps, ∃ m, p.compile? = .ok m) ↔ ∀ p ∈ ps, p.WellFormed :=
        forall₂_congr fun p hp => (ih p hp).1
      rw [exists_compile?_alt, exists_compile?_alt_cls, isClass_alt, hwell]
      exact ⟨Iff.rfl, and_congr_right fun _ => forall₂_congr fun p hp => (ih p hp).2⟩
    | rep p least most =>
      obtain ⟨hwell, -⟩ := ih p List.mem_cons_self
      rw [exists_compile?_rep, hwell]
      refine ⟨and_congr_right fun _ => List.forall_mem_singleton.symm, ?_, nofun⟩
      rintro ⟨has, h⟩
      obtain ⟨-, inner, -, hm⟩ := compile?_rep_eq_ok.1 h
      cases hm

/-- Negations, single parts and alternatives are seen through. -/
example : ∃ has, (not (seq [alt [any, not (op .nop)]])).compile? = .ok (.cls has) := ⟨_, rfl⟩

end Pattern

end StackCode

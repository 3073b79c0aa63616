import Mathlib.Computability.Language
import StackCode.Pattern

namespace StackCode

/-!
# The language of a pattern

Languages are those of Mathlib, with their products, sums and powers.  A window is only looked at
from place to place, so words are replaced by the two places that they stand between.

* `Pattern.language` — the words of opcodes that a pattern describes.
* `Spans` — a word of a language stands between two places of a window.
* `spans_mul`, `spans_add`, `spans_pow_add` — spans of composed languages.
* `exists_pow_le` — of a repetition, the empty words can be left out.
-/

/-- The words of `least` to `most` words of `L`, one after the other. -/
def repetitions (L : Language Opcode) (least : Nat) (most : Option Nat) : Language Opcode :=
  {w | ∃ k, least ≤ k ∧ (∀ m ∈ most, k ≤ m) ∧ w ∈ L ^ k}

namespace Pattern

mutual

/-- The words that a pattern describes.  Negation is among the words of one opcode. -/
def language : Pattern → Language Opcode
  | op o => {[o]}
  | any => {w | w.length = 1}
  | not p => {w | w.length = 1 ∧ w ∉ language p}
  | seq ps => (languages ps).prod
  | alt ps => (languages ps).sum
  | rep p least most => repetitions (language p) least most

/-- The languages of several patterns. -/
def languages : List Pattern → List (Language Opcode)
  | [] => []
  | p :: ps => language p :: languages ps

end

/-- An opcode matches itself alone. -/
@[simp] theorem mem_language_op {o : Opcode} {w : List Opcode} : w ∈ (op o).language ↔ w = [o] :=
  Iff.rfl

/-- Any single opcode matches the pattern for all. -/
@[simp] theorem mem_language_any {w : List Opcode} : w ∈ any.language ↔ w.length = 1 := Iff.rfl

/-- A complement matches the single opcodes that the pattern does not match. -/
@[simp] theorem mem_language_not {p : Pattern} {w : List Opcode} :
    w ∈ (not p).language ↔ w.length = 1 ∧ w ∉ p.language := Iff.rfl

end Pattern

/-! ### Words in a window -/

/-- A word of `L` stands in `window` from the place `p` to the place `q`. -/
def Spans (window : List Opcode) (L : Language Opcode) (p q : Nat) : Prop :=
  ∃ w ∈ L, w <+: window.drop p ∧ q = p + w.length

variable {window : List Opcode} {L M : Language Opcode} {p q : Nat}

/-- What spans the window from the start is a beginning of it. -/
theorem spans_zero_iff {n : Nat} :
    Spans window L 0 n ↔ n ≤ window.length ∧ window.take n ∈ L := by
  constructor
  · rintro ⟨w, hw, hstart, rfl⟩
    rw [List.drop_zero] at hstart
    rw [Nat.zero_add]
    exact ⟨hstart.length_le, by rwa [← List.prefix_iff_eq_take.1 hstart]⟩
  · rintro ⟨hn, hw⟩
    refine ⟨window.take n, hw, ?_, ?_⟩
    · rw [List.drop_zero]
      exact List.take_prefix n window
    · rw [List.length_take, Nat.min_eq_left hn, Nat.zero_add]

/-- The empty word spans no distance. -/
@[simp] theorem spans_one : Spans window 1 p q ↔ q = p := by
  constructor
  · rintro ⟨w, hw, -, hq⟩
    rw [Language.mem_one] at hw
    rw [hq, hw, List.length_nil, Nat.add_zero]
  · rintro rfl
    exact ⟨[], Language.nil_mem_one, List.nil_prefix, rfl⟩

/-- The empty language spans nothing. -/
@[simp] theorem not_spans_zero : ¬ Spans window 0 p q := by
  rintro ⟨w, hw, -⟩
  exact Language.notMem_zero w hw

/-- A sum spans what one of its languages spans. -/
theorem spans_add : Spans window (L + M) p q ↔ Spans window L p q ∨ Spans window M p q := by
  constructor
  · rintro ⟨w, hw, h⟩
    rcases (Language.mem_add L M w).1 hw with hw | hw
    · exact .inl ⟨w, hw, h⟩
    · exact .inr ⟨w, hw, h⟩
  · rintro (⟨w, hw, h⟩ | ⟨w, hw, h⟩)
    · exact ⟨w, (Language.mem_add L M w).2 (.inl hw), h⟩
    · exact ⟨w, (Language.mem_add L M w).2 (.inr hw), h⟩

/-- A concatenation spans what its parts span, by way of the place between them. -/
theorem spans_mul : Spans window (L * M) p q ↔ ∃ r, Spans window L p r ∧ Spans window M r q := by
  constructor
  · rintro ⟨w, hw, hstart, rfl⟩
    obtain ⟨x, hx, y, hy, rfl⟩ := Language.mem_mul.1 hw
    obtain ⟨rest, hrest⟩ := hstart
    refine ⟨p + x.length, ⟨x, hx, ⟨y ++ rest, by rw [← hrest, List.append_assoc]⟩, rfl⟩,
      y, hy, ⟨rest, ?_⟩, ?_⟩
    · rw [← List.drop_drop, ← hrest, List.append_assoc, List.drop_left]
    · rw [List.length_append, Nat.add_assoc]
  · rintro ⟨_, ⟨x, hx, ⟨rest, hrest⟩, rfl⟩, y, hy, ⟨rest', hrest'⟩, rfl⟩
    refine ⟨x ++ y, Language.append_mem_mul hx hy, ⟨rest', ?_⟩, ?_⟩
    · rw [← List.drop_drop, ← hrest, List.drop_left] at hrest'
      rw [← hrest, ← hrest', List.append_assoc]
    · rw [List.length_append, Nat.add_assoc]

/-- A power spans a first word and then the others. -/
theorem spans_pow_succ {n : Nat} :
    Spans window (L ^ (n + 1)) p q ↔ ∃ r, Spans window L p r ∧ Spans window (L ^ n) r q := by
  rw [pow_succ', spans_mul]

/-- Repetitions in a row are repetitions up to a place in between, and from there on. -/
theorem spans_pow_add {m n : Nat} :
    Spans window (L ^ (m + n)) p q ↔
      ∃ r, Spans window (L ^ m) p r ∧ Spans window (L ^ n) r q := by
  rw [pow_add, spans_mul]

/-! ### Repetitions -/

/-- **Repetitions.** A repetition spans what some number of words within its bounds spans. -/
theorem spans_repetitions {least : Nat} {most : Option Nat} :
    Spans window (repetitions L least most) p q ↔
      ∃ k, least ≤ k ∧ (∀ m ∈ most, k ≤ m) ∧ Spans window (L ^ k) p q := by
  constructor
  · rintro ⟨w, ⟨k, hleast, hmost, hw⟩, h⟩
    exact ⟨k, hleast, hmost, w, hw, h⟩
  · rintro ⟨k, hleast, hmost, w, hw, h⟩
    exact ⟨w, ⟨k, hleast, hmost, hw⟩, h⟩

/-- The empty words of a repetition can be left out, so that there are no more words than
    opcodes. -/
theorem exists_pow_le {k : Nat} {w : List Opcode} (hw : w ∈ L ^ k) :
    ∃ j ≤ k, j ≤ w.length ∧ w ∈ L ^ j := by
  induction k generalizing w with
  | zero => exact ⟨0, le_refl 0, Nat.zero_le _, hw⟩
  | succ k ih =>
    rw [pow_succ', Language.mem_mul] at hw
    obtain ⟨x, hx, y, hy, rfl⟩ := hw
    obtain ⟨j, hjk, hjy, hj⟩ := ih hy
    cases x with
    | nil => exact ⟨j, by omega, hjy, hj⟩
    | cons o x =>
      refine ⟨j + 1, by omega, ?_, ?_⟩
      · rw [List.length_append, List.length_cons]
        omega
      · rw [pow_succ']
        exact Language.append_mem_mul hx hj

/-- No repetition takes more rounds than the window has opcodes. -/
theorem Spans.exists_pow_le {k : Nat} (h : Spans window (L ^ k) p q) :
    ∃ j ≤ k, j ≤ window.length ∧ Spans window (L ^ j) p q := by
  obtain ⟨w, hw, hstart, hq⟩ := h
  obtain ⟨j, hjk, hjw, hj⟩ := StackCode.exists_pow_le hw
  have hlen : w.length ≤ window.length := by
    have h := hstart.length_le
    rw [List.length_drop] at h
    omega
  exact ⟨j, hjk, hjw.trans hlen, w, hj, hstart, hq⟩

end StackCode

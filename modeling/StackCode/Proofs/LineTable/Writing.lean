import Mathlib.Data.List.Basic
import StackCode.LineTable
import StackCode.Proofs.Fallible

namespace StackCode.LineTable

/-!
# Writing line tables

The writer adds nothing for a start that repeats the line in effect.  So starts and their normal
form have the same table, and the reader, which cannot tell them apart, finds the normal form.

* `normal` — line starts as a table keeps them: the first at offset `0`, and none on the line
  already in effect.
* `Encodable` — the line starts that have a table, and `pairs` — the table they have;
  `encodeFrom_eq_ok` says that encoding does just that.
* `encode_normal` — the normal form of starts has the same table.
-/

variable {f : Format}

/-! ### Normal forms -/

/-- The starts that change the line, where `line` is in effect before them. -/
def changes (line : UInt32) : List LineStart → List LineStart
  | [] => []
  | start :: rest =>
    if start.line = line then changes line rest else start :: changes start.line rest

/-- The starts with one at offset `0`, in line `first` if there is none. -/
def fromZero (first : UInt32) : List LineStart → List LineStart
  | [] => [⟨0, first⟩]
  | start :: rest =>
    if start.offset = 0 then start :: rest else ⟨0, first⟩ :: start :: rest

/-- The starts without those on the line of the start kept before. -/
def dropRepeats : List LineStart → List LineStart
  | [] => []
  | start :: rest => start :: changes start.line rest

/-- Line starts as a table keeps them. -/
def normal (first : UInt32) (starts : List LineStart) : List LineStart :=
  dropRepeats (fromZero first starts)

/-- The changes of line are some of the starts, in their order. -/
theorem changes_sublist (line : UInt32) (starts : List LineStart) :
    (changes line starts).Sublist starts := by
  induction starts generalizing line with
  | nil => exact .slnil
  | cons start rest ih =>
    rw [changes]
    split
    · exact (ih line).cons start
    · exact (ih start.line).cons_cons start

/-- The starts without repeated lines are some of the starts, in their order. -/
theorem dropRepeats_sublist (starts : List LineStart) : (dropRepeats starts).Sublist starts := by
  cases starts with
  | nil => exact .slnil
  | cons start rest => exact (changes_sublist start.line rest).cons_cons start

/-! ### Writing -/

/-- The starts behind offset `last` that have a table, where `line` is in effect before them: they
    come in offset order, and unsigned deltas do not move back. -/
structure Encodable (f : Format) (line : UInt32) (last : Option UInt32) (starts : List LineStart) :
    Prop where
  ordered : starts.Pairwise (·.offset < ·.offset)
  behind : ∀ p ∈ last, ∀ s ∈ starts, p < s.offset
  forward : f.signedLines = false →
    starts.Pairwise (·.line ≤ ·.line) ∧ ∀ s ∈ starts, line ≤ s.line

/-- No starts are encodable from everywhere. -/
theorem encodable_nil (line : UInt32) (last : Option UInt32) : Encodable f line last [] :=
  ⟨.nil, nofun, fun _ => ⟨.nil, nofun⟩⟩

/-- Starts are encodable when the first one comes behind the last offset, does not lead back where
    lines cannot, and the others are encodable behind it. -/
theorem encodable_cons {line : UInt32} {last : Option UInt32} {start : LineStart}
    {rest : List LineStart} :
    Encodable f line last (start :: rest) ↔
      (∀ p ∈ last, p < start.offset) ∧ (f.signedLines = false → line ≤ start.line) ∧
        Encodable f start.line (some start.offset) rest := by
  constructor
  · intro h
    obtain ⟨hstart, hrest⟩ := List.pairwise_cons.1 h.ordered
    refine ⟨fun p hp => h.behind p hp start List.mem_cons_self,
      fun hu => (h.forward hu).2 start List.mem_cons_self, hrest, ?_, fun hu => ?_⟩
    · rintro p hp s hs
      cases hp
      exact hstart s hs
    · obtain ⟨hlines, -⟩ := h.forward hu
      obtain ⟨hfirst, hlines⟩ := List.pairwise_cons.1 hlines
      exact ⟨hlines, hfirst⟩
  · rintro ⟨hlast, hline, h⟩
    -- What holds behind the first start holds from the last offset and line on, by transitivity.
    have hstart := h.behind start.offset rfl
    refine ⟨List.pairwise_cons.2 ⟨hstart, h.ordered⟩, fun p hp => ?_, fun hu => ?_⟩
    · refine List.forall_mem_cons.2 ⟨hlast p hp, fun s hs => ?_⟩
      exact UInt32.lt_trans (hlast p hp) (hstart s hs)
    · obtain ⟨hlines, hfirst⟩ := h.forward hu
      refine ⟨List.pairwise_cons.2 ⟨hfirst, hlines⟩, List.forall_mem_cons.2 ⟨hline hu, ?_⟩⟩
      exact fun s hs => UInt32.le_trans (hline hu) (hfirst s hs)

/-- The table of starts that have one. -/
def pairs (f : Format) (addr line : UInt32) : List LineStart → List UInt8
  | [] => []
  | start :: rest =>
    if start.line = line then pairs f addr line rest
    else advance f addr line start ++ pairs f start.offset start.line rest

/-- **Steps.** Writing goes on behind a start that is in order.  It adds nothing for a line already
    in effect, and the pairs up to the start for another one. -/
theorem encodeFrom_cons_eq_ok {addr line : UInt32} {last : Option UInt32} {start : LineStart}
    {rest : List LineStart} {t : List UInt8} :
    encodeFrom f addr line last (start :: rest) = .ok t ↔
      (∀ p ∈ last, p < start.offset) ∧
        if start.line = line then encodeFrom f addr line (some start.offset) rest = .ok t
        else ¬(start.line < line ∧ f.signedLines = false) ∧
          ∃ tail, encodeFrom f start.offset start.line (some start.offset) rest = .ok tail ∧
            advance f addr line start ++ tail = t := by
  -- Once the offset is checked, a start goes on the same way whether or not there was one before.
  have body : (if start.line = line then encodeFrom f addr line (some start.offset) rest
      else if start.line < line ∧ f.signedLines = false then
        throw (Error.backwardsLine start.offset start.line line)
      else do
        let tail ← encodeFrom f start.offset start.line (some start.offset) rest
        pure (advance f addr line start ++ tail)) = .ok t ↔
      if start.line = line then encodeFrom f addr line (some start.offset) rest = .ok t
        else ¬(start.line < line ∧ f.signedLines = false) ∧
          ∃ tail, encodeFrom f start.offset start.line (some start.offset) rest = .ok tail ∧
            advance f addr line start ++ tail = t := by
    split
    · exact Iff.rfl
    · split
      · rename_i h
        exact ⟨nofun, fun h' => absurd h h'.1⟩
      · rename_i h
        rw [bind_eq_ok]
        simp only [pure, Except.pure, Except.ok.injEq, h, not_false_iff, true_and]
  cases last with
  | none =>
    rw [← body]
    exact ⟨fun h => ⟨nofun, h⟩, fun h => h.2⟩
  | some p =>
    rw [← body]
    by_cases hp : start.offset ≤ p
    · have hthrow : encodeFrom f addr line (some p) (start :: rest) =
          .error (.unorderedOffset start.offset p) := by
        simp only [encodeFrom, if_pos hp]
        rfl
      rw [hthrow]
      exact ⟨nofun, fun h => absurd hp (UInt32.not_le.2 (h.1 p rfl))⟩
    · have hgo : encodeFrom f addr line (some p) (start :: rest) =
          encodeFrom f addr line none (start :: rest) := by
        simp only [encodeFrom, if_neg hp]
      rw [hgo]
      refine ⟨fun h => ⟨fun q hq => ?_, h⟩, fun h => h.2⟩
      cases hq
      exact UInt32.not_le.1 hp

/-- **Writing.** Encoding succeeds for the encodable starts, and gives their table. -/
theorem encodeFrom_eq_ok {addr line : UInt32} {last : Option UInt32}
    {starts : List LineStart} {t : List UInt8} :
    encodeFrom f addr line last starts = .ok t ↔
      Encodable f line last starts ∧ pairs f addr line starts = t := by
  -- The induction is on the starts, where each is checked against the offset and line before it.
  induction starts generalizing addr line last t with
  | nil =>
    rw [encodeFrom, pairs, Except.ok.injEq]
    exact ⟨fun h => ⟨encodable_nil line last, h⟩, fun h => h.2⟩
  | cons start rest ih =>
    rw [encodeFrom_cons_eq_ok, pairs, encodable_cons]
    split
    · rename_i hline
      rw [ih, hline]
      simp only [UInt32.le_refl, implies_true, true_and, and_assoc]
    · rename_i hline
      have hback : ¬(start.line < line ∧ f.signedLines = false) ↔
          (f.signedLines = false → line ≤ start.line) := by
        rw [not_and', UInt32.not_lt]
      rw [hback, and_assoc, and_assoc]
      refine and_congr_right fun _ => and_congr_right fun _ => ?_
      simp only [ih]
      exact ⟨fun ⟨_, ⟨h, htail⟩, ht⟩ => ⟨h, by rw [htail, ht]⟩, fun ⟨h, ht⟩ => ⟨_, ⟨h, rfl⟩, ht⟩⟩

/-- Starts on the line in effect add nothing to a table. -/
theorem pairs_changes (addr line : UInt32) (starts : List LineStart) :
    pairs f addr line (changes line starts) = pairs f addr line starts := by
  induction starts generalizing addr line with
  | nil => rfl
  | cons start rest ih =>
    rw [changes, pairs]
    split
    · exact ih addr line
    · rename_i h
      rw [pairs, if_neg h, ih]

/-- Fewer starts have a table too. -/
theorem Encodable.sublist {line : UInt32} {last : Option UInt32} {starts fewer : List LineStart}
    (h : Encodable f line last starts) (hsub : fewer.Sublist starts) :
    Encodable f line last fewer := by
  refine ⟨h.ordered.sublist hsub, fun p hp s hs => h.behind p hp s (hsub.subset hs), fun hu => ?_⟩
  obtain ⟨hlines, hfirst⟩ := h.forward hu
  exact ⟨hlines.sublist hsub, fun s hs => hfirst s (hsub.subset hs)⟩

/-- Starts with a table still have one, the same, once the first of them is at offset `0`. -/
theorem encode_fromZero {starts : List LineStart} {first : UInt32} {t : List UInt8}
    (h : encode starts first f = .ok t) : encode (fromZero first starts) first f = .ok t := by
  cases starts with
  | nil =>
    cases h
    simp [encode, encodeFrom, fromZero]
  | cons start rest =>
    rw [fromZero]
    split
    · exact h
    · rename_i hpos
      obtain ⟨henc, htable⟩ := encodeFrom_eq_ok.1 h
      obtain ⟨-, hforward, hrest⟩ := encodable_cons.1 henc
      have hlast : ∀ p ∈ (none : Option UInt32), p < 0 := by
        intro p hp
        cases hp
      refine encodeFrom_eq_ok.2 ⟨encodable_cons.2 ⟨hlast, fun _ => UInt32.le_refl _, ?_⟩, ?_⟩
      · refine encodable_cons.2 ⟨fun p hp => ?_, hforward, hrest⟩
        cases hp
        exact UInt32.pos_iff_ne_zero.2 hpos
      · -- The start put in front is on the line in effect, so that it has no pairs of its own.
        rw [pairs, if_pos rfl, htable]

/-- **Canonical starts.** The normal form of starts has the same table. -/
theorem encode_normal {starts : List LineStart} {first : UInt32} {t : List UInt8}
    (h : encode starts first f = .ok t) : encode (normal first starts) first f = .ok t := by
  obtain ⟨henc, htable⟩ := encodeFrom_eq_ok.1 (encode_fromZero h)
  refine encodeFrom_eq_ok.2 ⟨henc.sublist (dropRepeats_sublist _), ?_⟩
  rw [normal]
  cases hstarts : fromZero first starts with
  | nil => rwa [hstarts] at htable
  | cons start rest =>
    rw [hstarts, pairs] at htable
    rw [dropRepeats, pairs, ← htable]
    split
    · rename_i hline
      rw [← hline, pairs_changes]
    · rw [pairs_changes]

/-! ### Lengths -/

/-- The pairs of a line delta are whole pairs. -/
theorem length_spillLine_even (a : UInt8) (delta : Int) : (spillLine f a delta).length % 2 = 0 := by
  -- Each pair leaves less of the delta.
  induction hn : delta.natAbs using Nat.strongRecOn generalizing a delta with
  | ind n ih =>
    rw [spillLine]
    split
    · rfl
    · rename_i h
      have hless := f.natAbs_sub_clampLine_lt delta h
      have := ih _ (hn ▸ hless) 0 _ rfl
      rw [List.length_cons, List.length_cons]
      omega

/-- The pairs of an address delta are whole pairs. -/
theorem length_spillAddr_even (cap : UInt8) (distance : Nat) :
    (spillAddr cap distance).1.length % 2 = 0 := by
  induction distance using Nat.strongRecOn with
  | ind distance ih =>
    rw [spillAddr]
    split
    · rfl
    · have := ih (distance - cap.toNat) (by omega)
      dsimp only
      rw [List.length_cons, List.length_cons]
      omega

/-- Written tables consist of whole pairs. -/
theorem length_pairs_even (addr line : UInt32) (starts : List LineStart) :
    (pairs f addr line starts).length % 2 = 0 := by
  induction starts generalizing addr line with
  | nil => rfl
  | cons start rest ih =>
    rw [pairs]
    split
    · exact ih addr line
    · have haddr := length_spillAddr_even f.maxAddrDelta (start.offset - addr).toNat
      have hline := length_spillLine_even (f := f)
        (spillAddr f.maxAddrDelta (start.offset - addr).toNat).2
        ((start.line.toNat : Int) - line.toNat)
      have := ih start.offset start.line
      rw [List.length_append, advance]
      dsimp only
      rw [List.length_append]
      omega

end StackCode.LineTable

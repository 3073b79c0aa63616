import StackCode.Proofs.LineTable.Reading

namespace StackCode.LineTable

/-!
# The pairs of a line table

A delta that is beyond the caps is cut into pairs.  Each piece is within the caps by the way it is
clamped, and starts whose offsets increase are just those that the writer gets through.

* `tablePairs` — the pairs that a table is made of.
* `Format.Carries` — pairs whose deltas are within the caps; `carries_pairs` says that every table
  is written with such pairs.
* `encodable_iff` — the starts that have a table, by their offsets and lines alone.
* `encode_normalizes` — when starts have a table, what its pairs are, and what it is read as.
-/

variable {f : Format}

/-! ### Pairs -/

/-- The pairs of a table, each of an address byte and a line byte. -/
def tablePairs : List UInt8 → List (UInt8 × UInt8)
  | a :: l :: rest => (a, l) :: tablePairs rest
  | _ => []

/-- The pairs of two tables in a row, where the first one has no half pair at its end. -/
theorem tablePairs_append {front : List UInt8} (hfront : front.length % 2 = 0)
    (behind : List UInt8) :
    tablePairs (front ++ behind) = tablePairs front ++ tablePairs behind := by
  fun_induction tablePairs front with
  | case1 a l rest ih =>
    rw [List.length_cons, List.length_cons] at hfront
    rw [List.cons_append, List.cons_append, tablePairs, ih (by omega), List.cons_append]
  | case2 front hshort =>
    -- A table of whole pairs that has none is empty.
    match front with
    | [] => rfl
    | [a] => cases hfront
    | a :: l :: rest => exact absurd rfl (hshort a l rest)

/-- A pair whose address delta and line delta are within the caps. -/
structure Format.Carries (f : Format) (pair : UInt8 × UInt8) : Prop where
  addr : pair.1 ≤ f.maxAddrDelta
  minLine : f.minLine ≤ f.lineDelta pair.2
  maxLine : f.lineDelta pair.2 ≤ f.maxLine

/-- A pair that only moves the address is within the caps. -/
theorem carries_addr {a : UInt8} (ha : a ≤ f.maxAddrDelta) : f.Carries (a, 0) where
  addr := ha
  minLine := by rw [lineDelta_zero]; exact f.minLine_nonpos
  maxLine := by rw [lineDelta_zero]; exact f.maxLine_nonneg

/-- A clamped line delta is within the caps. -/
theorem carries_clampLine {a : UInt8} (ha : a ≤ f.maxAddrDelta) (delta : Int) :
    f.Carries (a, UInt8.ofNat (f.clampLine delta % 256).toNat) := by
  obtain ⟨hmin, hmax⟩ := f.clampLine_bounds delta
  have hbyte := lineDelta_ofNat _ hmin hmax
  exact ⟨ha, by rw [hbyte]; exact hmin, by rw [hbyte]; exact hmax⟩

/-- All pairs of a line delta are within the caps. -/
theorem carries_spillLine {a : UInt8} (ha : a ≤ f.maxAddrDelta) (delta : Int) :
    ∀ pair ∈ tablePairs (spillLine f a delta), f.Carries pair := by
  -- The induction is on what is left of the delta; the pairs behind the first stay in place.
  induction hn : delta.natAbs using Nat.strongRecOn generalizing a delta with
  | ind n ih =>
    rw [spillLine]
    split
    · intro pair hpair
      cases hpair
    · rename_i h
      have hless := f.natAbs_sub_clampLine_lt delta h
      have hzero : (0 : UInt8) ≤ f.maxAddrDelta := by
        rw [UInt8.le_iff_toNat_le]
        exact Nat.zero_le _
      rw [tablePairs, List.forall_mem_cons]
      exact ⟨carries_clampLine ha delta, ih _ (hn ▸ hless) hzero _ rfl⟩

/-- All pairs of an address delta are within the caps, and so is what they leave. -/
theorem carries_spillAddr (hf : f.Usable) (distance : Nat) :
    (∀ pair ∈ tablePairs (spillAddr f.maxAddrDelta distance).1, f.Carries pair) ∧
      (spillAddr f.maxAddrDelta distance).2 ≤ f.maxAddrDelta := by
  have hcap := hf.addr
  have hbyte := f.maxAddrDelta.toNat_lt
  induction distance using Nat.strongRecOn with
  | ind distance ih =>
    rw [spillAddr]
    split
    · -- The distance that is left fits into one byte.
      constructor
      · intro pair hpair
        cases hpair
      · rw [UInt8.le_iff_toNat_le, UInt8.toNat_ofNat']
        omega
    · obtain ⟨hpairs, hlast⟩ := ih (distance - f.maxAddrDelta.toNat) (by omega)
      dsimp only
      rw [tablePairs, List.forall_mem_cons]
      exact ⟨⟨carries_addr (UInt8.le_refl _), hpairs⟩, hlast⟩

/-- **Caps.** Every pair of a table is within the caps of its format. -/
theorem carries_pairs (hf : f.Usable) (addr line : UInt32) (starts : List LineStart) :
    ∀ pair ∈ tablePairs (pairs f addr line starts), f.Carries pair := by
  induction starts generalizing addr line with
  | nil => nofun
  | cons start rest ih =>
    rw [pairs]
    split
    · exact ih addr line
    · obtain ⟨haddr, hlast⟩ := carries_spillAddr hf (start.offset - addr).toNat
      have heven := length_spillAddr_even f.maxAddrDelta (start.offset - addr).toNat
      have heven' := length_spillLine_even (f := f)
        (spillAddr f.maxAddrDelta (start.offset - addr).toNat).2 ((start.line.toNat : Int) - line.toNat)
      unfold advance
      dsimp only
      rw [List.append_assoc, tablePairs_append heven, tablePairs_append heven',
        List.forall_mem_append, List.forall_mem_append]
      exact ⟨haddr, carries_spillLine hlast _, ih start.offset start.line⟩

/-! ### Line starts with a table -/

/-- Line deltas are unsigned from a cap of `128` on. -/
theorem signedLines_eq_false : f.signedLines = false ↔ 128 ≤ f.maxLineDelta := by
  simp [Format.signedLines, UInt8.not_lt]

/-- Lines in order are all behind a line that the first of them is behind. -/
theorem forall_line_le_iff {line : UInt32} {starts : List LineStart}
    (h : starts.Pairwise (·.line ≤ ·.line)) :
    (∀ s ∈ starts, line ≤ s.line) ↔ ∀ s ∈ starts.head?, line ≤ s.line := by
  cases starts with
  | nil => simp
  | cons start rest =>
    rw [List.forall_mem_cons, List.head?_cons]
    constructor
    · rintro ⟨hstart, -⟩ s hs
      cases hs
      exact hstart
    · intro hhead
      have hstart := hhead start rfl
      exact ⟨hstart, fun s hs => UInt32.le_trans hstart ((List.pairwise_cons.1 h).1 s hs)⟩

/-- Starts have a table when their offsets increase and, for unsigned deltas, their lines do not
    move back. -/
theorem encodable_iff {first : UInt32} {starts : List LineStart} :
    Encodable f first none starts ↔ starts.Pairwise (·.offset < ·.offset) ∧
      (128 ≤ f.maxLineDelta →
        starts.Pairwise (·.line ≤ ·.line) ∧ ∀ s ∈ starts.head?, first ≤ s.line) := by
  rw [← signedLines_eq_false]
  constructor
  · intro h
    refine ⟨h.ordered, fun hu => ?_⟩
    obtain ⟨hlines, hfirst⟩ := h.forward hu
    exact ⟨hlines, (forall_line_le_iff hlines).1 hfirst⟩
  · rintro ⟨hordered, hforward⟩
    refine ⟨hordered, nofun, fun hu => ?_⟩
    obtain ⟨hlines, hfirst⟩ := hforward hu
    exact ⟨hlines, (forall_line_le_iff hlines).2 hfirst⟩

/-- **Line tables.** Starts have a table when their offsets increase and, for unsigned deltas, their
    lines do not move back.  The table is made of whole pairs within the caps, and is read as the
    normal form of the starts. -/
theorem encode_normalizes (hf : f.Usable) (first : UInt32) (starts : List LineStart) :
    ((∃ t, encode starts first f = .ok t) ↔ starts.Pairwise (·.offset < ·.offset) ∧
      (128 ≤ f.maxLineDelta →
        starts.Pairwise (·.line ≤ ·.line) ∧ ∀ s ∈ starts.head?, first ≤ s.line)) ∧
    ∀ t, encode starts first f = .ok t →
      t.length % 2 = 0 ∧ (∀ pair ∈ tablePairs t, f.Carries pair) ∧
        decode t first f = .ok (normal first starts) := by
  refine ⟨?_, fun t ht => ?_⟩
  · rw [← encodable_iff]
    constructor
    · rintro ⟨t, ht⟩
      exact (encodeFrom_eq_ok.1 ht).1
    · intro h
      exact ⟨_, encodeFrom_eq_ok.2 ⟨h, rfl⟩⟩
  · obtain ⟨-, hpairs⟩ := encodeFrom_eq_ok.1 ht
    refine ⟨?_, ?_, decode_encode hf ht⟩
    · rw [← hpairs]
      exact length_pairs_even 0 first starts
    · rw [← hpairs]
      exact carries_pairs hf 0 first starts

/-- Signed deltas under small caps: an offset and lines that spill over, a line that moves back, and
    a start that repeats the line before it. -/
theorem encode_normalizes_smallCaps :
    (⟨3, 2⟩ : Format).Usable ∧ ∃ t,
      encode [⟨4, 10⟩, ⟨6, 10⟩, ⟨11, 5⟩] 7 ⟨3, 2⟩ = .ok t ∧ t.length % 2 = 0 ∧
        (∀ pair ∈ tablePairs t, (⟨3, 2⟩ : Format).Carries pair) ∧
        decode t 7 ⟨3, 2⟩ = .ok [⟨0, 7⟩, ⟨4, 10⟩, ⟨11, 5⟩] := by
  have hf : (⟨3, 2⟩ : Format).Usable := ⟨by decide, by decide⟩
  obtain ⟨hiff, htable⟩ := encode_normalizes hf 7 [⟨4, 10⟩, ⟨6, 10⟩, ⟨11, 5⟩]
  obtain ⟨t, ht⟩ := hiff.2 ⟨by decide, by decide⟩
  exact ⟨hf, t, ht, htable t ht⟩

end StackCode.LineTable

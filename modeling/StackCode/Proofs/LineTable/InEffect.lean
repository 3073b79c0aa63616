import Mathlib.Algebra.Ring.Int.Defs
import StackCode.Proofs.LineTable.Pairs

namespace StackCode.LineTable

/-!
# Lines in effect

A table reports a line when the address moves on, and only if it is another one than before.  So the
pairs do not correspond to starts one by one.  What can be compared at every offset is the line in
effect: the line reported last, against the sum of the deltas up to the offset.

* `lineAt_normal` — the normal form of line starts has the same lines in effect.
* `deltaUpTo` — the sum of the line deltas of a table up to an offset, pair by pair.
* `decodeFrom_inEffect` — in the starts of a table, the line in effect is that sum behind the first
  line, although lines are reported only when the address moves on.
* `decode_canonical` — what was read from any table: where it starts, how it goes on, which lines
  are in effect, and that it can be written.
-/

variable {f : Format} {offset : Nat} {addr : UInt32} {line : Int} {last : Option Int}
variable {starts here tail s : List LineStart}

/-! ### Line starts -/

/-- The line at an offset is that of the first start if no later start comes before the offset. -/
theorem lineAt_cons (start : LineStart) (rest : List LineStart) (offset : Nat) :
    lineAt (start :: rest) offset =
      if start.offset.toNat ≤ offset then some ((lineAt rest offset).getD start.line) else none := by
  unfold lineAt
  rw [List.takeWhile_cons]
  by_cases h : start.offset.toNat ≤ offset
  · rw [if_pos h, if_pos (decide_eq_true h), List.getLast?_cons, Option.map_some]
    cases (rest.takeWhile (·.offset.toNat ≤ offset)).getLast? <;> rfl
  · rw [if_neg h, if_neg (by simpa using h)]
    rfl

/-- Before all starts there is no line. -/
theorem lineAt_of_lt (h : ∀ s ∈ starts, offset < s.offset.toNat) : lineAt starts offset = none := by
  cases starts with
  | nil => rfl
  | cons start rest =>
    rw [lineAt_cons, if_neg (Nat.not_le.2 (h start List.mem_cons_self))]

/-- Starts that repeat the line in effect can be left out. -/
theorem lineAt_changes (hsorted : starts.Pairwise (·.offset < ·.offset)) (line : UInt32) :
    (lineAt (changes line starts) offset).getD line = (lineAt starts offset).getD line := by
  induction starts generalizing line with
  | nil => rfl
  | cons start rest ih =>
    obtain ⟨hstart, hrest⟩ := List.pairwise_cons.1 hsorted
    rw [changes]
    split
    · rename_i hline
      rw [ih hrest, lineAt_cons, hline]
      split
      · rfl
      · rename_i hbefore
        rw [lineAt_of_lt fun s hs => Nat.lt_trans (Nat.not_le.1 hbefore)
          (UInt32.lt_iff_toNat_lt.1 (hstart s hs))]
    · rw [lineAt_cons, lineAt_cons, ih hrest]

/-- **Lines in effect.** In the normal form of line starts there is a line in effect everywhere:
    that of the starts, and the first line before them. -/
theorem lineAt_normal (hsorted : starts.Pairwise (·.offset < ·.offset)) (first : UInt32)
    (offset : Nat) :
    lineAt (normal first starts) offset = some ((lineAt starts offset).getD first) := by
  have hfirst : (⟨0, first⟩ : LineStart).offset.toNat ≤ offset := Nat.zero_le _
  unfold normal
  cases starts with
  | nil => rw [fromZero, dropRepeats, changes, lineAt_cons, if_pos hfirst]
  | cons start rest =>
    rw [fromZero]
    split
    · rename_i hzero
      have hrest := (List.pairwise_cons.1 hsorted).2
      rw [dropRepeats, lineAt_cons, lineAt_cons, lineAt_changes hrest,
        if_pos (hzero ▸ hfirst), Option.getD_some]
    · rw [dropRepeats, lineAt_cons, if_pos hfirst, lineAt_changes hsorted]

/-- Starts that change the line each time have no line twice in a row. -/
theorem isChain_changes (o line : UInt32) (starts : List LineStart) :
    (⟨o, line⟩ :: changes line starts).IsChain (·.line ≠ ·.line) := by
  induction starts generalizing o line with
  | nil => exact .singleton _
  | cons start rest ih =>
    rw [changes]
    split
    · -- A start on the line in effect is left out.
      exact ih o line
    · rename_i hne
      exact .cons_cons (Ne.symm hne) (ih start.offset start.line)

/-! ### Sums of line deltas -/

/-- The line deltas of pairs, each with the address that is reached by the pair: the sum of the
    address bytes up to its own, from `addr` on. -/
def deltasFrom (f : Format) (addr : Nat) : List (UInt8 × UInt8) → List (Nat × Int)
  | [] => []
  | (a, l) :: rest => (addr + a.toNat, f.lineDelta l) :: deltasFrom f (addr + a.toNat) rest

/-- The sum of the line deltas of the pairs that do not lead beyond `offset`. -/
def deltaUpTo (f : Format) (addr : Nat) (table : List (UInt8 × UInt8)) (offset : Nat) : Int :=
  (((deltasFrom f addr table).filter (·.1 ≤ offset)).map (·.2)).sum

/-- No pairs, no change. -/
theorem deltaUpTo_nil (place : Nat) : deltaUpTo f place [] offset = 0 := rfl

/-- A pair at or before the offset counts with its line delta. -/
theorem deltaUpTo_cons_of_le {place : Nat} {a l : UInt8} {table : List (UInt8 × UInt8)}
    (h : place + a.toNat ≤ offset) :
    deltaUpTo f place ((a, l) :: table) offset =
      f.lineDelta l + deltaUpTo f (place + a.toNat) table offset := by
  simp [deltaUpTo, deltasFrom, h]

/-- The places of pairs do not come before the place that they are counted from. -/
theorem le_of_mem_deltasFrom {place : Nat} {table : List (UInt8 × UInt8)} {d : Nat × Int}
    (h : d ∈ deltasFrom f place table) : place ≤ d.1 := by
  induction table generalizing place with
  | nil => cases h
  | cons pair rest ih =>
    rcases List.mem_cons.1 h with rfl | hrest
    · exact Nat.le_add_right _ _
    · exact Nat.le_trans (Nat.le_add_right _ _) (ih hrest)

/-- Addresses never go back, so a pair that leads beyond `offset` is not followed by deltas that
    count. -/
theorem deltaUpTo_cons_of_lt {place : Nat} {a l : UInt8} {table : List (UInt8 × UInt8)}
    (h : offset < place + a.toNat) : deltaUpTo f place ((a, l) :: table) offset = 0 := by
  have hnone : (deltasFrom f place ((a, l) :: table)).filter (·.1 ≤ offset) = [] := by
    refine List.filter_eq_nil_iff.2 fun d hd => ?_
    have hle : place + a.toNat ≤ d.1 := by
      rcases List.mem_cons.1 hd with rfl | hrest
      · exact Nat.le_refl _
      · exact le_of_mem_deltasFrom hrest
    rw [decide_eq_true_eq]
    omega
  rw [deltaUpTo, hnone]
  rfl

/-! ### Reading -/

/-- The line in effect at `offset`, where `last` is the line reported before the starts. -/
def inEffect (starts : List LineStart) (offset : Nat) (last : Option Int) : Option Int :=
  ((lineAt starts offset).map fun line => (line.toNat : Int)).or last

/-- Before all starts the line reported last is in effect. -/
theorem inEffect_of_lt (h : ∀ s ∈ starts, offset < s.offset.toNat) :
    inEffect starts offset last = last := by
  rw [inEffect, lineAt_of_lt h]
  rfl

/-- Behind a report its line is the last one, whether it was reported before or not. -/
theorem inEffect_report (h : report addr line last = .ok here) (hle : addr.toNat ≤ offset)
    (tail : List LineStart) :
    inEffect (here ++ tail) offset last = inEffect tail offset (some line) := by
  rcases report_eq_ok h with ⟨rfl, rfl⟩ | ⟨-, u, hu, rfl⟩
  · rfl
  · unfold inEffect
    rw [List.singleton_append, lineAt_cons, if_pos hle]
    cases lineAt tail offset with
    | none => exact congrArg some hu
    | some v => rfl

/-- What is reported starts at the address of the report. -/
theorem le_offset_of_report (h : report addr line last = .ok s) :
    ∀ start ∈ s, addr.toNat ≤ start.offset.toNat := by
  intro start hstart
  rcases report_eq_ok h with ⟨-, rfl⟩ | ⟨-, u, -, rfl⟩
  · cases hstart
  · obtain rfl := List.mem_singleton.1 hstart
    exact Nat.le_refl addr.toNat

/-- What is read from `addr` on does not start before it. -/
theorem le_offset_of_decodeFrom {table : List UInt8}
    (hreach : addr.toNat + reach table < UInt32.size)
    (h : decodeFrom f addr line last table = .ok s) :
    ∀ start ∈ s, addr.toNat ≤ start.offset.toNat := by
  fun_induction decodeFrom f addr line last table generalizing s with
  | case1 addr line last l rest ih => exact ih (reach_behind_zero hreach) h
  | case2 addr line last a l rest ha ih =>
    obtain ⟨here, hhere, h⟩ := bind_eq_ok.1 h
    obtain ⟨tail, htail, h⟩ := bind_eq_ok.1 h
    cases h
    rw [List.forall_mem_append]
    refine ⟨le_offset_of_report hhere, fun start hstart => ?_⟩
    have hle := ih (reach_behind hreach) htail start hstart
    rw [toNat_add_byte hreach] at hle
    exact Nat.le_trans (Nat.le_add_right _ _) hle
  | case3 t addr line last hshort => exact le_offset_of_report h

/-- **Reading.** At every offset from `addr` on, the line in effect is that of the table, with the
    deltas of all pairs up to there. -/
theorem decodeFrom_inEffect {table : List UInt8} (hle : addr.toNat ≤ offset)
    (hreach : addr.toNat + reach table < UInt32.size)
    (h : decodeFrom f addr line last table = .ok s) :
    inEffect s offset last = some (line + deltaUpTo f addr.toNat (tablePairs table) offset) := by
  fun_induction decodeFrom f addr line last table generalizing s with
  | case1 addr line last l rest ih =>
    -- A pair in place changes the line, and nothing is reported.
    have hstay : addr.toNat + (0 : UInt8).toNat = addr.toNat := rfl
    rw [ih hle (reach_behind_zero hreach) h, tablePairs, deltaUpTo_cons_of_le (by rwa [hstay]),
      hstay, Int.add_assoc]
  | case2 addr line last a l rest ha ih =>
    obtain ⟨here, hhere, h⟩ := bind_eq_ok.1 h
    obtain ⟨tail, htail, h⟩ := bind_eq_ok.1 h
    cases h
    rw [inEffect_report hhere hle, tablePairs]
    have hmove := toNat_add_byte hreach
    by_cases hreached : addr.toNat + a.toNat ≤ offset
    · rw [ih (hmove ▸ hreached) (reach_behind hreach) htail, hmove,
        deltaUpTo_cons_of_le hreached, Int.add_assoc]
    · -- All that comes is behind the offset, so the line that was reported stays in effect.
      have hbefore : offset < addr.toNat + a.toNat := Nat.not_le.1 hreached
      have htail := le_offset_of_decodeFrom (reach_behind hreach) htail
      rw [hmove] at htail
      rw [inEffect_of_lt fun start hstart => Nat.lt_of_lt_of_le hbefore (htail start hstart),
        deltaUpTo_cons_of_lt hbefore, Int.add_zero]
  | case3 t addr line last hshort =>
    have hnone : tablePairs t = [] := by
      rw [tablePairs]
      exact hshort
    have hend := inEffect_report h hle []
    rw [List.append_nil] at hend
    rw [hend, hnone, deltaUpTo_nil, Int.add_zero]
    rfl

/-- **Any table.** The starts that are read from a table begin at offset `0`, move on in offset with
    each start and change the line with each start.  The line in effect is the first line with the
    deltas of all pairs up to the offset.  The starts have a table, which is read as the same.  The
    sum of the address bytes has to be a 32-bit number, as the address is. -/
theorem decode_canonical (hf : f.Usable) {table : List UInt8} {first : UInt32}
    (hreach : reach table < UInt32.size) (h : decode table first f = .ok s) :
    (∃ line rest, s = ⟨0, line⟩ :: rest) ∧ s.Pairwise (·.offset < ·.offset) ∧
      s.IsChain (·.line ≠ ·.line) ∧
      (∀ offset, ∃ line, lineAt s offset = some line ∧
        (line.toNat : Int) = first.toNat + deltaUpTo f 0 (tablePairs table) offset) ∧
      ∃ t, encode s first f = .ok t ∧ decode t first f = .ok s := by
  have hread : decodeFrom f 0 first.toNat none table = .ok s := by
    unfold decode at h
    split at h
    · cases h
    · exact h
  -- Nothing is reported before the table, so there is a first start, and it is at offset `0`.
  have hzero : (0 : UInt32).toNat + reach table < UInt32.size := by
    rwa [UInt32.toNat_zero, Nat.zero_add]
  obtain ⟨v, rest, rfl, -, -, hchanges⟩ := decodeFrom_none hzero hread
  refine ⟨⟨v, rest, rfl⟩, (encodable_of_decode hreach h).1.ordered, ?_, fun offset => ?_,
    decode_encode_decode hf hreach h⟩
  · have hchain := isChain_changes 0 v rest
    rwa [hchanges] at hchain
  · have heffect := decodeFrom_inEffect (Nat.zero_le offset) hzero hread
    rw [inEffect, Option.or_none] at heffect
    exact Option.map_eq_some_iff.1 heffect

/-- Pairs that no writer leaves: one that changes nothing, lines that go below zero and come back
    in place, addresses that move on without a change, and a change that is taken back before the
    address moves on. -/
theorem decode_canonical_redundant :
    (⟨3, 2⟩ : Format).Usable ∧
      reach [0, 0, 0, 246, 0, 12, 3, 0, 4, 0, 2, 5, 0, 251, 3, 1] < UInt32.size ∧
      decode [0, 0, 0, 246, 0, 12, 3, 0, 4, 0, 2, 5, 0, 251, 3, 1] 7 ⟨3, 2⟩ =
        .ok [⟨0, 9⟩, ⟨12, 10⟩] ∧
      ∃ t, encode [⟨0, 9⟩, ⟨12, 10⟩] 7 ⟨3, 2⟩ = .ok t ∧
        decode t 7 ⟨3, 2⟩ = .ok [⟨0, 9⟩, ⟨12, 10⟩] := by
  have hf : (⟨3, 2⟩ : Format).Usable := ⟨by decide, by decide⟩
  have hreach : reach [0, 0, 0, 246, 0, 12, 3, 0, 4, 0, 2, 5, 0, 251, 3, 1] < UInt32.size := by
    decide
  have hread : decode [0, 0, 0, 246, 0, 12, 3, 0, 4, 0, 2, 5, 0, 251, 3, 1] 7 ⟨3, 2⟩ =
      .ok [⟨0, 9⟩, ⟨12, 10⟩] := eq_ok_of_toOption (by decide)
  obtain ⟨-, -, -, -, hwrite⟩ := decode_canonical hf hreach hread
  exact ⟨hf, hreach, hread, hwrite⟩

end StackCode.LineTable

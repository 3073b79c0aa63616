import StackCode.Encoding
import StackCode.Proofs.LineTable.Writing

namespace StackCode.LineTable

/-!
# Reading line tables

The pairs for one start spill over: first those that move the address, then those that move the line
in place.  The reader reports a line at the first of the former and none at the latter, so it is
shown what it makes of such a run of pairs, and an induction over the starts puts the runs together.
In the other direction the induction is over the table, two bytes at a time; there the sum of the
address bytes has to be a 32-bit number, for the address wraps around beyond it.

* `Format.Usable` — formats that carry every delta in the end: both caps are positive.
* `decodeFrom_pairs` — the pairs of encodable starts are read as their changes of line.
* `decode_encode` — a table is read as the normal form of the starts that it was written from.
* `reach` — the sum of the address bytes of a table, which reading counts in 32 bits.
* `encodable_of_decode` — what was read from a table that does not outreach its address is
  encodable, and in normal form.
* `decode_encode_decode` — what was read from such a table is written, and read as the same again.
* `decode_detour` — beyond that, the starts that are read come back to earlier offsets.
-/

/-- Both caps are positive. -/
structure Format.Usable (f : Format) : Prop where
  addr : 0 < f.maxAddrDelta.toNat
  line : 0 < f.maxLineDelta.toNat

/-- Both encodings have formats that carry every delta. -/
theorem usable_lineFormat (e : Encoding) : e.lineFormat.Usable := by
  cases e <;> exact ⟨by decide, by decide⟩

variable {f : Format}

/-! ### Reading a table back -/

/-- A line delta within the caps is what its byte stands for. -/
theorem lineDelta_ofNat (delta : Int) (hmin : f.minLine ≤ delta) (hmax : delta ≤ f.maxLine) :
    f.lineDelta (UInt8.ofNat (delta % 256).toNat) = delta := by
  have hcap := f.maxLineDelta.toNat_lt
  have hsigned : f.signedLines = true ↔ f.maxLineDelta.toNat < 128 := by
    simp [Format.signedLines, UInt8.lt_iff_toNat_lt]
  have hbyte : (UInt8.ofNat (delta % 256).toNat).toNat = (delta % 256).toNat := by
    rw [UInt8.toNat_ofNat']
    omega
  have hhigh : (128 : UInt8) ≤ UInt8.ofNat (delta % 256).toNat ↔ 128 ≤ (delta % 256).toNat := by
    rw [UInt8.le_iff_toNat_le, hbyte]
    rfl
  -- Signed formats take the upper half of the bytes for negative deltas, others for large ones.
  unfold Format.lineDelta
  unfold Format.minLine Format.maxLine at *
  simp only [Bool.and_eq_true, decide_eq_true_eq, hhigh, hbyte, hsigned]
  split <;> rename_i h <;> split at hmin <;> rename_i h' <;> rw [hsigned] at h' <;> omega

/-- The byte `0` stands for no change of the line. -/
theorem lineDelta_zero : f.lineDelta 0 = 0 := by
  simp [Format.lineDelta]

/-- What is left of a delta between the caps is none. -/
theorem Format.clampLine_eq_zero_iff (hf : f.Usable) (delta : Int)
    (hforward : f.signedLines = false → 0 ≤ delta) : f.clampLine delta = 0 ↔ delta = 0 := by
  have hline := hf.line
  unfold Format.clampLine Format.minLine Format.maxLine
  split <;> rename_i h
  · omega
  · have := hforward (by simpa using h)
    omega

/-- Clamping never takes more from a delta than there is. -/
theorem Format.clampLine_sub_nonneg (delta : Int) (h : 0 ≤ delta) :
    0 ≤ delta - f.clampLine delta := by
  have := f.minLine_nonpos
  have := f.maxLine_nonneg
  unfold Format.clampLine
  omega

/-- A clamped delta is between the caps. -/
theorem Format.clampLine_bounds (delta : Int) :
    f.minLine ≤ f.clampLine delta ∧ f.clampLine delta ≤ f.maxLine := by
  have := f.minLine_nonpos
  have := f.maxLine_nonneg
  unfold Format.clampLine
  omega

/-- A pair without an address delta changes the line in place. -/
theorem decodeFrom_zero (addr : UInt32) (line : Int) (last : Option Int) (l : UInt8)
    (rest : List UInt8) :
    decodeFrom f addr line last (0 :: l :: rest) =
      decodeFrom f addr (line + f.lineDelta l) last rest := by
  rw [decodeFrom, if_pos rfl]

/-- A pair with an address delta reports the line before it, and moves on. -/
theorem decodeFrom_moving {a : UInt8} (ha : a ≠ 0) (addr : UInt32) (line : Int)
    (last : Option Int) (l : UInt8) (rest : List UInt8) :
    decodeFrom f addr line last (a :: l :: rest) = (do
      let here ← report addr line last
      let tail ← decodeFrom f (addr + a.toUInt32) (line + f.lineDelta l) (some line) rest
      return here ++ tail) := by
  rw [decodeFrom, if_neg ha]

/-- Pairs without an address delta only move the line. -/
theorem decodeFrom_spillLine_zero (hf : f.Usable) (addr : UInt32) (line delta : Int)
    (last : Option Int) (rest : List UInt8) (hforward : f.signedLines = false → 0 ≤ delta) :
    decodeFrom f addr line last (spillLine f 0 delta ++ rest) =
      decodeFrom f addr (line + delta) last rest := by
  -- The induction is on what is left of the delta, as in the spilling.
  induction hn : delta.natAbs using Nat.strongRecOn generalizing line delta with
  | ind n ih =>
    obtain ⟨hmin, hmax⟩ := f.clampLine_bounds delta
    rw [spillLine]
    split
    · rename_i h
      rw [f.clampLine_eq_zero_iff hf delta hforward] at h
      rw [h, Int.add_zero, List.nil_append]
    · rename_i h
      have hless := f.natAbs_sub_clampLine_lt delta h
      have hforward' : f.signedLines = false → 0 ≤ delta - f.clampLine delta :=
        fun hu => f.clampLine_sub_nonneg delta (hforward hu)
      rw [List.cons_append, List.cons_append, decodeFrom_zero, lineDelta_ofNat _ hmin hmax,
        ih _ (by omega) _ _ hforward' rfl, Int.add_assoc, Int.add_comm _ (delta - _),
        Int.sub_add_cancel]

/-- The pairs of a line delta report the line before them, and move on. -/
theorem decodeFrom_spillLine (hf : f.Usable) {a : UInt8} (ha : a ≠ 0) (addr : UInt32)
    (line delta : Int) (last : Option Int) (rest : List UInt8) (hdelta : delta ≠ 0)
    (hforward : f.signedLines = false → 0 ≤ delta) :
    decodeFrom f addr line last (spillLine f a delta ++ rest) = (do
      let here ← report addr line last
      let tail ← decodeFrom f (addr + a.toUInt32) (line + delta) (some line) rest
      return here ++ tail) := by
  obtain ⟨hmin, hmax⟩ := f.clampLine_bounds delta
  have h : ¬f.clampLine delta = 0 := by rwa [f.clampLine_eq_zero_iff hf delta hforward]
  rw [spillLine, dif_neg h, List.cons_append, List.cons_append, decodeFrom_moving ha,
    lineDelta_ofNat _ hmin hmax,
    decodeFrom_spillLine_zero hf _ _ _ _ _ fun hu => f.clampLine_sub_nonneg delta (hforward hu),
    Int.add_assoc, Int.add_comm _ (delta - _), Int.sub_add_cancel]

/-- No distance needs no pairs. -/
theorem spillAddr_zero (cap : UInt8) : spillAddr cap 0 = ([], 0) := by
  rw [spillAddr, if_pos (.inr (Nat.zero_le _))]
  rfl

/-- The pairs of an address delta report the line before them once, and move on. -/
theorem decodeFrom_spill (hf : f.Usable) (addr : UInt32) (distance : Nat) (line delta : Int)
    (last : Option Int) (rest : List UInt8) (hdistance : 0 < distance) (hdelta : delta ≠ 0)
    (hforward : f.signedLines = false → 0 ≤ delta) :
    decodeFrom f addr line last ((spillAddr f.maxAddrDelta distance).1 ++
        (spillLine f (spillAddr f.maxAddrDelta distance).2 delta ++ rest)) = (do
      let here ← report addr line last
      let tail ← decodeFrom f (addr + UInt32.ofNat distance) (line + delta) (some line) rest
      return here ++ tail) := by
  have hcap := hf.addr
  have hbyte := f.maxAddrDelta.toNat_lt
  -- The induction is on the distance, which gets shorter by the cap with each pair.
  induction distance using Nat.strongRecOn generalizing addr last with
  | ind distance ih =>
    rw [spillAddr]
    by_cases hfit : f.maxAddrDelta.toNat = 0 ∨ distance ≤ f.maxAddrDelta.toNat
    · have hnat : (UInt8.ofNat distance).toNat = distance := by
        rw [UInt8.toNat_ofNat']
        omega
      have ha : UInt8.ofNat distance ≠ 0 := by
        intro h
        rw [h] at hnat
        exact absurd hnat (by simpa using Nat.ne_of_lt hdistance)
      rw [if_pos hfit, List.nil_append, decodeFrom_spillLine hf ha _ _ _ _ _ hdelta hforward,
        ← UInt32.ofNat_uInt8ToNat, hnat]
    · have ha : f.maxAddrDelta ≠ 0 := by
        intro h
        rw [h] at hcap
        exact absurd hcap (by decide)
      -- The first pair reports the line, so that the pairs behind it have nothing to report.
      have hreport : report (addr + f.maxAddrDelta.toUInt32) line (some line) = .ok [] :=
        if_pos rfl
      have hsum : addr + f.maxAddrDelta.toUInt32 +
          UInt32.ofNat (distance - f.maxAddrDelta.toNat) = addr + UInt32.ofNat distance := by
        rw [← UInt32.ofNat_uInt8ToNat, UInt32.add_assoc, ← UInt32.ofNat_add,
          Nat.add_sub_cancel' (by omega)]
      rw [if_neg hfit]
      dsimp only
      rw [List.cons_append, List.cons_append, decodeFrom_moving ha, lineDelta_zero, Int.add_zero,
        ih (distance - f.maxAddrDelta.toNat) (by omega) _ _ (by omega), hreport, hsum]
      cases decodeFrom f (addr + UInt32.ofNat distance) (line + delta) (some line) rest <;> rfl

/-- **Advancing.** The pairs up to a start behind the table's place report the line in effect. -/
theorem decodeFrom_advance (hf : f.Usable) (addr line : UInt32) (last : Option Int)
    (start : LineStart) (rest : List UInt8) (hbehind : addr < start.offset)
    (hline : start.line ≠ line) (hforward : f.signedLines = false → line ≤ start.line) :
    decodeFrom f addr line.toNat last (advance f addr line start ++ rest) = (do
      let here ← report addr line.toNat last
      let tail ← decodeFrom f start.offset start.line.toNat (some line.toNat) rest
      return here ++ tail) := by
  have hne : start.line.toNat ≠ line.toNat := fun h => hline (UInt32.toNat_inj.1 h)
  have hle : f.signedLines = false → line.toNat ≤ start.line.toNat :=
    fun hu => UInt32.le_iff_toNat_le.1 (hforward hu)
  have hdistance : 0 < (start.offset - addr).toNat := by
    have := UInt32.lt_iff_toNat_lt.1 hbehind
    rw [UInt32.toNat_sub_of_le _ _ (UInt32.le_of_lt hbehind)]
    omega
  have haddr : addr + UInt32.ofNat (start.offset - addr).toNat = start.offset := by
    rw [UInt32.ofNat_toNat, UInt32.add_comm, UInt32.sub_add_cancel]
  unfold advance
  dsimp only
  -- The pairs of the distance lead to the offset of the start, and those of the line to its line.
  rw [List.append_assoc, decodeFrom_spill hf _ _ _ _ _ _ hdistance (by omega)
    fun hu => by have := hle hu; omega]
  rw [haddr, Int.add_comm _ (_ - _), Int.sub_add_cancel]

/-- A start at the table's place changes the line before it is reported. -/
theorem decodeFrom_advance_here (hf : f.Usable) (line : UInt32) (last : Option Int)
    (start : LineStart) (rest : List UInt8)
    (hforward : f.signedLines = false → line ≤ start.line) :
    decodeFrom f start.offset line.toNat last (advance f start.offset line start ++ rest) =
      decodeFrom f start.offset start.line.toNat last rest := by
  have hle : f.signedLines = false → line.toNat ≤ start.line.toNat :=
    fun hu => UInt32.le_iff_toNat_le.1 (hforward hu)
  unfold advance
  rw [UInt32.sub_self, UInt32.toNat_zero, spillAddr_zero]
  dsimp only
  rw [List.nil_append, decodeFrom_spillLine_zero hf _ _ _ _ _ fun hu => by have := hle hu; omega,
    Int.add_comm _ (_ - _), Int.sub_add_cancel]

/-- A 32-bit line that was not reported last is reported. -/
theorem report_line {addr line : UInt32} {last : Option Int}
    (h : last ≠ some (line.toNat : Int)) : report addr line.toNat last = .ok [⟨addr, line⟩] := by
  unfold report
  rw [if_neg h, if_pos ⟨Int.natCast_nonneg _, by simpa using line.toNat_lt⟩]
  simp

/-- **Reading back.** A table is read as the line in effect at its place, unless that was reported
    before, and the changes of line behind it. -/
theorem decodeFrom_pairs (hf : f.Usable) (addr line : UInt32) (last : Option Int)
    (starts : List LineStart) (h : Encodable f line (some addr) starts)
    (hlast : last ≠ some (line.toNat : Int)) :
    decodeFrom f addr line.toNat last (pairs f addr line starts) =
      .ok (⟨addr, line⟩ :: changes line starts) := by
  induction starts generalizing addr line last with
  | nil =>
    rw [pairs, decodeFrom, report_line hlast, changes]
    intro a l rest hnil
    cases hnil
  | cons start rest ih =>
    obtain ⟨hbehind, hforward, hrest⟩ := encodable_cons.1 h
    rw [pairs, changes]
    split
    · exact ih addr line last (h.sublist (List.sublist_cons_self _ _)) hlast
    · rename_i hline
      -- The line reported last is that of the start before, so the next one is another line.
      have hlast' : some (line.toNat : Int) ≠ some (start.line.toNat : Int) := by
        intro heq
        exact hline (UInt32.toNat_inj.1 (Int.ofNat_inj.1 (Option.some.inj heq.symm)))
      rw [decodeFrom_advance hf addr line last start _ (hbehind addr rfl) hline hforward,
        report_line hlast, ih start.offset start.line _ hrest hlast']
      rfl

/-- **Round trip.** A table is read as the normal form of the starts that it was written from. -/
theorem decode_encode (hf : f.Usable) {starts : List LineStart} {first : UInt32} {t : List UInt8}
    (h : encode starts first f = .ok t) : decode t first f = .ok (normal first starts) := by
  obtain ⟨henc, rfl⟩ := encodeFrom_eq_ok.1 h
  have hnone : ∀ line : UInt32, (none : Option Int) ≠ some (line.toNat : Int) := by
    intro line hline
    cases hline
  rw [decode, if_neg (by rw [length_pairs_even]; decide), normal]
  cases starts with
  | nil => exact decodeFrom_pairs hf 0 first none [] (encodable_nil first _) (hnone _)
  | cons start rest =>
    obtain ⟨-, hforward, hrest⟩ := encodable_cons.1 henc
    rw [fromZero]
    split
    · rename_i hzero
      rw [dropRepeats, pairs]
      rw [hzero] at hrest
      -- The start at offset `0` may be on the first line, where it has no pairs.
      split
      · rename_i hline
        have hstart : start = ⟨0, first⟩ := by
          cases start
          cases hzero
          cases hline
          rfl
        rw [hline] at hrest ⊢
        rw [decodeFrom_pairs hf 0 first none rest hrest (hnone _), hstart]
      · have hadvance := decodeFrom_advance_here hf first none start
          (pairs f start.offset start.line rest) hforward
        rw [hzero] at hadvance
        rw [hzero, hadvance, decodeFrom_pairs hf 0 start.line none rest hrest (hnone _), ← hzero]
    · rename_i hpos
      refine decodeFrom_pairs hf 0 first none (start :: rest) ?_ (hnone _)
      refine encodable_cons.2 ⟨fun p hp => ?_, hforward, hrest⟩
      cases hp
      exact UInt32.pos_iff_ne_zero.2 hpos

/-! ### Tables from anywhere -/

/-- The sum of the address bytes of a table, without wrapping around. -/
def reach : List UInt8 → Nat
  | a :: _ :: rest => a.toNat + reach rest
  | _ => 0

section Reach

variable {addr : UInt32} {a l : UInt8} {rest : List UInt8}

/-- The address does not wrap around at a pair whose table does not outreach it. -/
theorem toNat_add_byte (h : addr.toNat + reach (a :: l :: rest) < UInt32.size) :
    (addr + a.toUInt32).toNat = addr.toNat + a.toNat := by
  have hle : addr.toNat + a.toNat ≤ addr.toNat + reach (a :: l :: rest) := by
    rw [reach]
    omega
  rw [UInt32.toNat_add, UInt8.toNat_toUInt32, Nat.mod_eq_of_lt (Nat.lt_of_le_of_lt hle h)]

/-- A pair that moves on leads to a later address, unless the address wraps around. -/
theorem lt_add_byte (ha : a ≠ 0) (h : addr.toNat + reach (a :: l :: rest) < UInt32.size) :
    addr < addr + a.toUInt32 := by
  have hpos : a.toNat ≠ 0 := fun h0 => ha (UInt8.toNat_inj.1 h0)
  rw [UInt32.lt_iff_toNat_lt, toNat_add_byte h]
  omega

/-- The pairs behind a pair do not outreach the address that it leads to. -/
theorem reach_behind (h : addr.toNat + reach (a :: l :: rest) < UInt32.size) :
    (addr + a.toUInt32).toNat + reach rest < UInt32.size := by
  rwa [toNat_add_byte h, Nat.add_assoc]

/-- A pair without an address delta does not add to the reach. -/
theorem reach_behind_zero (h : addr.toNat + reach (0 :: l :: rest) < UInt32.size) :
    addr.toNat + reach rest < UInt32.size := by
  rwa [reach, UInt8.toNat_zero, Nat.zero_add] at h

end Reach

/-- Pairs that only move the address on report the line before them once.  The address wraps around
    where they outreach it. -/
theorem decodeFrom_run {a : UInt8} (ha : a ≠ 0) (n : Nat) (addr : UInt32) (line : Int)
    (last : Option Int) (rest : List UInt8) :
    decodeFrom f addr line last ((List.replicate (n + 1) [a, 0]).flatten ++ rest) = (do
      let here ← report addr line last
      let tail ← decodeFrom f (addr + UInt32.ofNat ((n + 1) * a.toNat)) line (some line) rest
      return here ++ tail) := by
  induction n generalizing addr last with
  | zero =>
    rw [List.replicate_one, List.flatten_singleton, List.cons_append, List.cons_append,
      List.nil_append, decodeFrom_moving ha, lineDelta_zero, Int.add_zero, Nat.zero_add,
      Nat.one_mul, UInt32.ofNat_uInt8ToNat]
  | succ n ih =>
    -- The pairs behind the first one have nothing to report.
    have hreport : report (addr + a.toUInt32) line (some line) = .ok [] := if_pos rfl
    have hsum : addr + a.toUInt32 + UInt32.ofNat ((n + 1) * a.toNat) =
        addr + UInt32.ofNat ((n + 1 + 1) * a.toNat) := by
      rw [← UInt32.ofNat_uInt8ToNat, UInt32.add_assoc, ← UInt32.ofNat_add, Nat.add_comm a.toNat,
        ← Nat.succ_mul]
    rw [List.replicate_succ, List.flatten_cons, List.append_assoc, List.cons_append,
      List.cons_append, List.nil_append, decodeFrom_moving ha, lineDelta_zero, Int.add_zero, ih,
      hreport, hsum]
    cases decodeFrom f (addr + UInt32.ofNat ((n + 1 + 1) * a.toNat)) line (some line) rest <;> rfl

/-- Unsigned deltas do not lead back. -/
theorem lineDelta_nonneg (l : UInt8) (hu : f.signedLines = false) : 0 ≤ f.lineDelta l := by
  simp [Format.lineDelta, hu]

/-- A report holds the line at its place, and no report the line reported last. -/
theorem report_eq_ok {addr : UInt32} {line : Int} {last : Option Int} {s : List LineStart}
    (h : report addr line last = .ok s) :
    (last = some line ∧ s = []) ∨
      (last ≠ some line ∧ ∃ u : UInt32, (u.toNat : Int) = line ∧ s = [⟨addr, u⟩]) := by
  unfold report at h
  split at h
  · cases h
    exact .inl ⟨‹_›, rfl⟩
  · split at h
    · rename_i hrange
      cases h
      refine .inr ⟨‹_›, UInt32.ofNat line.toNat, ?_, rfl⟩
      rw [UInt32.toNat_ofNat_of_lt' hrange.2]
      omega
    · cases h

/-- A line that is encodable in front of encodable starts. -/
theorem Encodable.report {addr p u v : UInt32} {tail : List LineStart} (hp : p < addr)
    (hne : u ≠ v) (hline : f.signedLines = false → u ≤ v)
    (htail : Encodable f v (some addr) tail ∧ changes v tail = tail) :
    Encodable f u (some p) (⟨addr, v⟩ :: tail) ∧
      changes u (⟨addr, v⟩ :: tail) = ⟨addr, v⟩ :: tail := by
  refine ⟨encodable_cons.2 ⟨fun q hq => ?_, hline, htail.1⟩, ?_⟩
  · cases hq
    exact hp
  · rw [changes, if_neg (Ne.symm hne), htail.2]

/-- What is read behind a report of `u` is encodable, and changes the line each time. -/
theorem decodeFrom_some {addr p u : UInt32} {line : Int} {last : Option Int}
    {table : List UInt8} {s : List LineStart} (hp : p < addr)
    (hline : f.signedLines = false → (u.toNat : Int) ≤ line) (hlast : last = some (u.toNat : Int))
    (hreach : addr.toNat + reach table < UInt32.size)
    (h : decodeFrom f addr line last table = .ok s) :
    Encodable f u (some p) s ∧ changes u s = s := by
  have hle : ∀ {u v : UInt32} {line : Int}, (f.signedLines = false → (u.toNat : Int) ≤ line) →
      (v.toNat : Int) = line → f.signedLines = false → u ≤ v := by
    intro u v line hline hv hu
    have := hline hu
    exact UInt32.le_iff_toNat_le.2 (by omega)
  have hne : ∀ {u v : UInt32} {line : Int} {last : Option Int}, last = some (u.toNat : Int) →
      (v.toNat : Int) = line → last ≠ some line → u ≠ v := by
    rintro u v line last hlast hv hne rfl
    exact hne (by rw [hlast, hv])
  -- The cases are those of reading: a pair in place, a pair that moves on, and the end.
  fun_induction decodeFrom f addr line last table generalizing p u s with
  | case1 addr line last l rest ih =>
    refine ih hp (fun hu => ?_) hlast (reach_behind_zero hreach) h
    have := hline hu
    have := lineDelta_nonneg l hu
    omega
  | case2 addr line last a l rest ha ih =>
    obtain ⟨here, hhere, h⟩ := bind_eq_ok.1 h
    obtain ⟨tail, htail, h⟩ := bind_eq_ok.1 h
    cases h
    have hmove : addr < addr + a.toUInt32 := lt_add_byte ha hreach
    have hrest := reach_behind hreach
    have hfurther : ∀ v : UInt32, (v.toNat : Int) = line → f.signedLines = false →
        (v.toNat : Int) ≤ line + f.lineDelta l := by
      intro v hv hu
      have := lineDelta_nonneg l hu
      omega
    rcases report_eq_ok hhere with ⟨heq, rfl⟩ | ⟨hlast', v, hv, rfl⟩
    · have hu : (u.toNat : Int) = line := by simpa [hlast] using heq
      exact ih (UInt32.lt_trans hp hmove) (hfurther u hu) (by rw [hu]) hrest htail
    · exact Encodable.report hp (hne hlast hv hlast') (hle hline hv)
        (ih hmove (hfurther v hv) (by rw [hv]) hrest htail)
  | case3 t addr line last hshort =>
    rcases report_eq_ok h with ⟨-, rfl⟩ | ⟨hlast', v, hv, rfl⟩
    · exact ⟨encodable_nil u _, rfl⟩
    · exact Encodable.report hp (hne hlast hv hlast') (hle hline hv) ⟨encodable_nil v _, rfl⟩

/-- **Reading.** The first start that is read is at the place of the table, and the starts behind
    it are encodable and change the line each time. -/
theorem decodeFrom_none {addr : UInt32} {line : Int} {table : List UInt8} {s : List LineStart}
    (hreach : addr.toNat + reach table < UInt32.size)
    (h : decodeFrom f addr line none table = .ok s) :
    ∃ v rest, s = ⟨addr, v⟩ :: rest ∧ (f.signedLines = false → line ≤ v.toNat) ∧
      Encodable f v (some addr) rest ∧ changes v rest = rest := by
  generalize hlast : (none : Option Int) = last at h
  fun_induction decodeFrom f addr line last table generalizing s with
  | case1 addr line last l rest ih =>
    -- Lines that do not move back are at or behind the line of the table.
    obtain ⟨v, rest, rfl, hline, hrest⟩ := ih (reach_behind_zero hreach) hlast h
    refine ⟨v, rest, rfl, fun hu => ?_, hrest⟩
    have := hline hu
    have := lineDelta_nonneg l hu
    omega
  | case2 addr line last a l rest ha ih =>
    obtain ⟨here, hhere, h⟩ := bind_eq_ok.1 h
    obtain ⟨tail, htail, h⟩ := bind_eq_ok.1 h
    cases h
    rcases report_eq_ok hhere with ⟨heq, -⟩ | ⟨-, v, hv, rfl⟩
    · rw [← hlast] at heq
      cases heq
    · -- Nothing was reported before, so there is a report, and the starts behind it are those
      -- behind a report.
      refine ⟨v, tail, rfl, fun _ => by omega, decodeFrom_some (lt_add_byte ha hreach)
        (fun hu => ?_) (by rw [hv]) (reach_behind hreach) htail⟩
      have := lineDelta_nonneg l hu
      omega
  | case3 t addr line last hshort =>
    rcases report_eq_ok h with ⟨heq, -⟩ | ⟨-, v, hv, rfl⟩
    · rw [← hlast] at heq
      cases heq
    · exact ⟨v, [], rfl, fun _ => by omega, encodable_nil v _, rfl⟩

/-- Starts that were read from a table are encodable and in normal form. -/
theorem encodable_of_decode {table : List UInt8} {first : UInt32} {s : List LineStart}
    (hreach : reach table < UInt32.size) (h : decode table first f = .ok s) :
    Encodable f first none s ∧ normal first s = s := by
  unfold decode at h
  split at h
  · cases h
  · have hzero : (0 : UInt32).toNat + reach table < UInt32.size := by
      rwa [UInt32.toNat_zero, Nat.zero_add]
    obtain ⟨v, rest, rfl, hline, hrest, hchanges⟩ := decodeFrom_none hzero h
    refine ⟨encodable_cons.2 ⟨nofun, fun hu => ?_, hrest⟩, ?_⟩
    · exact UInt32.le_iff_toNat_le.2 (Int.ofNat_le.1 (hline hu))
    · rw [normal, fromZero, if_pos rfl, dropRepeats, hchanges]

/-- **Canonical tables.** What was read from a table can be written, and is read as the same. -/
theorem decode_encode_decode (hf : f.Usable) {table : List UInt8} {first : UInt32}
    {s : List LineStart} (hreach : reach table < UInt32.size) (h : decode table first f = .ok s) :
    ∃ t, encode s first f = .ok t ∧ decode t first f = .ok s := by
  obtain ⟨henc, hnormal⟩ := encodable_of_decode hreach h
  have hwrite : encode s first f = .ok (pairs f 0 first s) := encodeFrom_eq_ok.2 ⟨henc, rfl⟩
  exact ⟨_, hwrite, by rw [decode_encode hf hwrite, hnormal]⟩

/-- A table that starts line `2` at offset `6`, and line `3` behind `n + 1` largest moves and a
    smaller one. -/
def detour (n : Nat) : List UInt8 :=
  6 :: 1 :: ((List.replicate (n + 1) [255, 0]).flatten ++ [254, 1])

/-- The table is read with that address wrapped around. -/
theorem decode_detour (n : Nat) :
    decode (detour n) 1 Encoding.legacy.lineFormat =
      .ok [⟨0, 1⟩, ⟨6, 2⟩, ⟨UInt32.ofNat (260 + (n + 1) * 255), 3⟩] := by
  have heven : (detour n).length % 2 = 0 := by
    rw [detour, List.length_cons, List.length_cons, List.length_append, List.length_flatten,
      List.map_replicate, List.sum_replicate_nat]
    simp
    omega
  -- The address bytes are added up modulo `2 ^ 32`, like the number that they come to.
  have hsum : 6 + UInt32.ofNat ((n + 1) * (255 : UInt8).toNat) + (254 : UInt8).toUInt32 =
      UInt32.ofNat (260 + (n + 1) * 255) := by
    show UInt32.ofNat 6 + UInt32.ofNat ((n + 1) * 255) + UInt32.ofNat 254 = _
    rw [← UInt32.ofNat_add, ← UInt32.ofNat_add]
    exact congrArg UInt32.ofNat (by omega)
  have hbehind : decodeFrom Encoding.legacy.lineFormat 6 2 (some 1)
      ((List.replicate (n + 1) [255, 0]).flatten ++ [254, 1]) =
        .ok [⟨6, 2⟩, ⟨UInt32.ofNat (260 + (n + 1) * 255), 3⟩] := by
    rw [decodeFrom_run (by decide), decodeFrom_moving (by decide), hsum]
    rfl
  rw [decode, if_neg (fun h => h heven), detour, decodeFrom_moving (by decide)]
  show (do
    let here ← report 0 1 none
    let tail ← decodeFrom Encoding.legacy.lineFormat 6 2 (some 1)
      ((List.replicate (n + 1) [255, 0]).flatten ++ [254, 1])
    return here ++ tail) = _
  rw [hbehind]
  rfl

end StackCode.LineTable

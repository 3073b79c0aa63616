namespace StackCode

/-!
# Line tables

A line table is a byte string of pairs (address delta, line delta), read from offset `0` and a
given first line.  Both fields are capped; a larger delta spills over into further pairs.

* `LineTable.Format` — the two caps; a line cap below `128` makes line deltas signed bytes.
* `LineStart` — the instruction at `offset` starts `line`.
* `LineTable.encode` — the table of a list of line starts in offset order.
* `LineTable.decode` — the line starts of a table, the first of them at offset `0`.

Offsets and lines are 32-bit numbers.  The address of a table is one too: reading adds the address
bytes up and wraps around where their sum outgrows it.
-/

/-- The instruction at byte `offset` starts source line `line`. -/
structure LineStart where
  offset : UInt32
  line : UInt32
  deriving DecidableEq, Repr

/-- The line start of an offset that is kept as a number without a bound. -/
def LineStart.ofEntry (entry : Nat × UInt32) : LineStart := ⟨UInt32.ofNat entry.1, entry.2⟩

namespace LineTable

/-- The largest deltas that one pair of a table carries. -/
structure Format where
  maxAddrDelta : UInt8
  maxLineDelta : UInt8
  deriving DecidableEq, Repr

/-- Unsigned line deltas up to `255`. -/
def Format.legacy : Format := ⟨255, 255⟩

/-- Signed line deltas from `-128` to `127`. -/
def Format.wordcode : Format := ⟨255, 127⟩

/-- Line deltas are signed bytes when the cap leaves the top bit free. -/
def Format.signedLines (f : Format) : Bool := f.maxLineDelta < 128

/-- The least line delta of one pair. -/
def Format.minLine (f : Format) : Int := if f.signedLines then -128 else 0

/-- The largest line delta of one pair. -/
def Format.maxLine (f : Format) : Int := f.maxLineDelta.toNat

/-- Why a table cannot be written or read. -/
inductive Error where
  /-- The table ends in half a pair. -/
  | oddLength (length : Nat)
  /-- Line starts come in strictly increasing offset order. -/
  | unorderedOffset (offset previous : UInt32)
  /-- A table of unsigned deltas cannot move back to an earlier line. -/
  | backwardsLine (offset line previous : UInt32)
  /-- A line that is to be reported is outside the 32-bit range. -/
  | underflow (offset : UInt32)
  deriving DecidableEq, Repr

def Error.message : Error → String
  | .oddLength n => s!"line table has odd length {n}"
  | .unorderedOffset o p => s!"line start at offset {o} follows offset {p}"
  | .backwardsLine o l p => s!"line {l} at offset {o} is before line {p}"
  | .underflow o => s!"line table underflows at offset {o}"

/-! ### Writing -/

/-- The pairs that carry an address delta beyond `cap`, and the delta left for the last pair. -/
def spillAddr (cap : UInt8) (delta : Nat) : List UInt8 × UInt8 :=
  if cap.toNat = 0 ∨ delta ≤ cap.toNat then ([], UInt8.ofNat delta)
  else
    let (pairs, last) := spillAddr cap (delta - cap.toNat)
    (cap :: 0 :: pairs, last)
termination_by delta
decreasing_by omega

/-- A pair can hold the line back where it is. -/
theorem Format.minLine_nonpos (f : Format) : f.minLine ≤ 0 := by
  unfold Format.minLine; split <;> decide

/-- A pair can leave the line where it is. -/
theorem Format.maxLine_nonneg (f : Format) : 0 ≤ f.maxLine := by
  unfold Format.maxLine; omega

/-- The part of a line delta that the next pair carries. -/
def Format.clampLine (f : Format) (delta : Int) : Int := max f.minLine (min f.maxLine delta)

/-- A clamped delta that moves at all brings the line nearer, so that the pairs of one start come to
    an end. -/
theorem Format.natAbs_sub_clampLine_lt (f : Format) (delta : Int) (h : f.clampLine delta ≠ 0) :
    (delta - f.clampLine delta).natAbs < delta.natAbs := by
  have := f.minLine_nonpos
  have := f.maxLine_nonneg
  unfold Format.clampLine at *
  omega

/-- The pairs that carry a line delta; the first of them carries the address byte `addr`. -/
def spillLine (f : Format) (addr : UInt8) (delta : Int) : List UInt8 :=
  if _ : f.clampLine delta = 0 then []
  else
    addr :: UInt8.ofNat (f.clampLine delta % 256).toNat
      :: spillLine f 0 (delta - f.clampLine delta)
termination_by delta.natAbs
decreasing_by exact f.natAbs_sub_clampLine_lt delta ‹_›

/-- The pairs that move the table from `(addr, line)` to `start`. -/
def advance (f : Format) (addr line : UInt32) (start : LineStart) : List UInt8 :=
  let (pairs, last) := spillAddr f.maxAddrDelta (start.offset - addr).toNat
  pairs ++ spillLine f last ((start.line.toNat : Int) - line.toNat)

/-- The pairs of `starts`, where the table stands at `(addr, line)` and `last` is the offset of
    the start before.  A start on the line already in effect adds nothing. -/
def encodeFrom (f : Format) (addr line : UInt32) (last : Option UInt32) :
    List LineStart → Except Error (List UInt8)
  | [] => .ok []
  | start :: rest => do
    if let some previous := last then
      if start.offset ≤ previous then throw (.unorderedOffset start.offset previous)
    if start.line = line then
      encodeFrom f addr line (some start.offset) rest
    else if start.line < line ∧ f.signedLines = false then
      throw (.backwardsLine start.offset start.line line)
    else
      let tail ← encodeFrom f start.offset start.line (some start.offset) rest
      return advance f addr line start ++ tail

/-- The table of `starts`, read from line `first`. -/
def encode (starts : List LineStart) (first : UInt32) (f : Format) : Except Error (List UInt8) :=
  encodeFrom f 0 first none starts

/-! ### Reading -/

/-- The line delta that a byte stands for. -/
def Format.lineDelta (f : Format) (byte : UInt8) : Int :=
  if f.signedLines && 128 ≤ byte then (byte.toNat : Int) - 256 else byte.toNat

/-- The report of `line` at `addr`, unless it is the line reported last. -/
def report (addr : UInt32) (line : Int) (last : Option Int) : Except Error (List LineStart) :=
  if last = some line then .ok []
  else if 0 ≤ line ∧ line.toNat < UInt32.size then .ok [⟨addr, UInt32.ofNat line.toNat⟩]
  else .error (.underflow addr)

/-- The line starts of the pairs of a table that stands at `(addr, line)`, where `last` is the
    line reported last.  A line is reported when the address moves on, and at the end. -/
def decodeFrom (f : Format) (addr : UInt32) (line : Int) (last : Option Int) :
    List UInt8 → Except Error (List LineStart)
  | a :: l :: rest => do
    if a = 0 then
      decodeFrom f addr (line + f.lineDelta l) last rest
    else
      let here ← report addr line last
      let tail ← decodeFrom f (addr + a.toUInt32) (line + f.lineDelta l) (some line) rest
      return here ++ tail
  | _ => report addr line last

/-- The line starts of a table that is read from line `first`. -/
def decode (table : List UInt8) (first : UInt32) (f : Format) : Except Error (List LineStart) :=
  if table.length % 2 ≠ 0 then .error (.oddLength table.length)
  else decodeFrom f 0 first.toNat none table

/-- The line in effect at byte `offset`: that of the last start at or before it. -/
def lineAt (starts : List LineStart) (offset : Nat) : Option UInt32 :=
  ((starts.takeWhile (·.offset.toNat ≤ offset)).getLast?).map (·.line)

end LineTable

end StackCode

import StackCode.Assembly.Literal
import StackCode.Proofs.Fallible

namespace StackCode

/-!
# Quoted text and its items

* `Literal.Item` — what stands for one character between quotes: the character itself, a backslash
  and a character, or a backslash, `x` and two hexadecimal digits.
* `Literal.Item.read` — an item is read as its character.
* `Literal.item_quoteChar`, `Literal.item_quoteByte` — what characters and bytes are quoted with.
* `Literal.readQuoted_flatMap` — what is quoted item by item is read back.
* `Literal.toBytes_map` — bytes come back from their characters.
-/

namespace Text

/-- The characters that are quoted without their code point: printable ASCII, line feed, tab,
    carriage return and the null character. -/
def IsPlain (c : Char) : Prop :=
  (' ' ≤ c ∧ c ≤ '~') ∨ c = '\n' ∨ c = '\t' ∨ c = '\r' ∨ c = '\x00'

/-- The characters from the blank to the tilde are printable. -/
theorem isPrintable_of_le {c : Char} (hlow : ' ' ≤ c) (hhigh : c ≤ '~') : isPrintable c = true := by
  have hlow : 32 ≤ c.val := hlow
  have hhigh : c.val < 127 := Nat.lt_succ_of_le (show c.val ≤ 126 from hhigh)
  rw [isPrintable, if_pos hhigh, decide_eq_true hlow]

/-- The reader of digits finds the number that a digit was written for. -/
theorem hexDigit?_digitChar {n : Nat} (h : n < 16) : hexDigit? (Nat.digitChar n) = some n := by
  have hall : ∀ n : Fin 16, hexDigit? (Nat.digitChar n.val) = some n.val := by decide
  exact hall ⟨n, h⟩

/-- A hexadecimal digit is no character that has no value. -/
theorem ne_of_hexDigit? {a b : Char} {n : Nat} (ha : hexDigit? a = some n)
    (hb : hexDigit? b = none) : a ≠ b := by
  rintro rfl
  rw [ha] at hb
  cases hb

end Text

namespace Literal

open Text

/-- What stands between quotes `q`, on one line, for one character. -/
inductive Item (q : Char) : List Char → Char → Prop where
  | plain {c : Char} : c ≠ q → c ≠ '\\' → c ≠ '\n' → Item q [c] c
  | escape {c : Char} : c ≠ 'x' → c ≠ '\n' → Item q ['\\', c] (escaped c)
  | hex {a b : Char} {m n : Nat} : hexDigit? a = some m → hexDigit? b = some n →
      Item q ['\\', 'x', a, b] (Char.ofNat (16 * m + n))

variable {q c a b : Char} {cs rest : List Char}

/-! ### Reading -/

/-- Within quotes a character that is no backslash ends the quotation or is part of it. -/
theorem readQuoted_cons (hc : c ≠ '\\') :
    readQuoted q (c :: rest) =
      if c = q then .ok ([], rest) else consRead c <$> readQuoted q rest := by
  rw [readQuoted]
  all_goals simp [hc]

/-- A backslash and a character other than `x` stand for one character. -/
theorem readQuoted_escape (hc : c ≠ 'x') :
    readQuoted q ('\\' :: c :: rest) = consRead (escaped c) <$> readQuoted q rest := by
  rw [readQuoted]
  all_goals simp [hc]

/-- Two hexadecimal digits stand for the number that they are written for. -/
theorem hexByte?_pair {m n : Nat} (ha : hexDigit? a = some m) (hb : hexDigit? b = some n) :
    hexByte? [a, b] = some (16 * m + n) := by
  have hplus : a ≠ '+' := ne_of_hexDigit? ha rfl
  rw [hexByte?, if_neg hplus, ha, hb]
  rfl

/-- An item is read as its character. -/
theorem Item.read (h : Item q cs c) (rest : List Char) :
    readQuoted q (cs ++ rest) = consRead c <$> readQuoted q rest := by
  cases h with
  | plain hq hc _ => exact (readQuoted_cons hc).trans (if_neg hq)
  | escape hc _ => exact readQuoted_escape hc
  | hex ha hb =>
    show (do let c ← hexChar _; consRead c <$> readQuoted q rest) = _
    rw [hexChar, hexByte?_pair ha hb]
    rfl

/-- **Quoted items.** What is quoted item by item is read back, up to the closing quote. -/
theorem readQuoted_flatMap {α : Type} {f : α → List Char} {g : α → Char} {xs : List α}
    (hq : q ≠ '\\') (h : ∀ x ∈ xs, Item q (f x) (g x)) (rest : List Char) :
    readQuoted q (xs.flatMap f ++ q :: rest) = .ok (xs.map g, rest) := by
  induction xs with
  | nil => exact (readQuoted_cons hq).trans (if_pos rfl)
  | cons x xs ih =>
    obtain ⟨hx, hxs⟩ := List.forall_mem_cons.1 h
    rw [List.flatMap_cons, List.append_assoc, hx.read, ih hxs]
    rfl

/-! ### Quoting -/

/-- A character is quoted as an item. -/
theorem item_quoteChar (h : IsPlain c) : Item doubleQuote (quoteChar c) c := by
  by_cases hnull : c = '\x00'
  · rw [hnull]
    exact .escape (c := '0') (by decide) (by decide)
  by_cases htab : c = '\t'
  · rw [htab]
    exact .escape (c := 't') (by decide) (by decide)
  by_cases hreturn : c = '\r'
  · rw [hreturn]
    exact .escape (c := 'r') (by decide) (by decide)
  by_cases hline : c = '\n'
  · rw [hline]
    exact .escape (c := 'n') (by decide) (by decide)
  by_cases hslash : c = '\\'
  · rw [hslash]
    exact .escape (c := '\\') (by decide) (by decide)
  by_cases hquote : c = doubleQuote
  · rw [hquote]
    exact .escape (c := doubleQuote) (by decide) (by decide)
  -- What is left is printable, and stands for itself.
  have hprintable : isPrintable c = true := by
    rcases h with ⟨hlow, hhigh⟩ | h | h | h | h
    · exact isPrintable_of_le hlow hhigh
    all_goals contradiction
  have hself : quoteChar c = [c] := by
    simp [quoteChar, hnull, htab, hreturn, hline, hslash, hquote, hprintable]
  rw [hself]
  exact .plain hquote hslash hline

/-- A byte is quoted as an item. -/
theorem item_quoteByte (b : UInt8) : Item doubleQuote (quoteByte b) (Char.ofNat b.toNat) := by
  unfold quoteByte
  generalize hc : Char.ofNat b.toNat = c
  dsimp only
  -- The cases follow the writer: characters with an escape of their own, then the printable ones,
  -- then the others.
  by_cases htab : c = '\t'
  · rw [if_pos htab, htab]
    exact .escape (c := 't') (by decide) (by decide)
  rw [if_neg htab]
  by_cases hreturn : c = '\r'
  · rw [if_pos hreturn, hreturn]
    exact .escape (c := 'r') (by decide) (by decide)
  rw [if_neg hreturn]
  by_cases hline : c = '\n'
  · rw [if_pos hline, hline]
    exact .escape (c := 'n') (by decide) (by decide)
  rw [if_neg hline]
  by_cases hslash : c = '\\'
  · rw [hslash]
    exact .escape (c := '\\') (by decide) (by decide)
  by_cases hdouble : c = doubleQuote
  · rw [hdouble]
    exact .escape (c := doubleQuote) (by decide) (by decide)
  by_cases hsingle : c = singleQuote
  · rw [hsingle]
    exact .escape (c := singleQuote) (by decide) (by decide)
  have hother : ¬(c = '\\' || c = doubleQuote || c = singleQuote) = true := by
    simp [hslash, hdouble, hsingle]
  rw [if_neg hother]
  split
  · exact .plain hdouble hslash hline
  · have hlt := b.toNat_lt
    have hdigits := Item.hex (q := doubleQuote)
      (hexDigit?_digitChar (n := b.toNat / 16) (by omega))
      (hexDigit?_digitChar (n := b.toNat % 16) (by omega))
    rw [Nat.div_add_mod, hc] at hdigits
    rw [hexByte, String.toList_ofList]
    exact hdigits

/-- Bytes are characters with the same number. -/
theorem toNat_ofNat_byte (b : UInt8) : (Char.ofNat b.toNat).toNat = b.toNat := by
  have hall : ∀ n : Fin 256, (Char.ofNat n.val).toNat = n.val := by decide +kernel
  exact hall ⟨b.toNat, b.toNat_lt⟩

/-- Bytes come back from their characters. -/
theorem toBytes_map (bs : List UInt8) : toBytes (bs.map fun b => Char.ofNat b.toNat) = .ok bs := by
  rw [toBytes, mapM_eq_ok]
  induction bs with
  | nil => exact .nil
  | cons b bs ih =>
    refine .cons ?_ ih
    rw [toNat_ofNat_byte, if_pos b.toNat_lt, UInt8.ofNat_toNat]

/-- A quoted text of plain characters is read back. -/
theorem readQuoted_quote {s : String} (h : ∀ c ∈ s.toList, IsPlain c) (rest : List Char) :
    readQuoted doubleQuote (s.toList.flatMap quoteChar ++ doubleQuote :: rest) =
      .ok (s.toList, rest) := by
  have hread := readQuoted_flatMap (q := doubleQuote) (g := id) (by decide)
    (fun c hc => item_quoteChar (h c hc)) rest
  rwa [List.map_id] at hread

/-- Quoted bytes are read back, as characters. -/
theorem readQuoted_quoteBytes (bs : List UInt8) (rest : List Char) :
    readQuoted doubleQuote (bs.flatMap quoteByte ++ doubleQuote :: rest) =
      .ok (bs.map fun b => Char.ofNat b.toNat, rest) :=
  readQuoted_flatMap (by decide) (fun b _ => item_quoteByte b) rest

end Literal

end StackCode

import Mathlib.Data.List.TakeWhile
import StackCode.Proofs.Assembly.Quoted

namespace StackCode.Literal

/-!
# The grammar of quoted text

The reader goes from left to right and has a case for each escape.  The grammar has a constructor
for each of these cases, and both are compared letter by letter.  They differ in one place: the
reader of digits takes a plus sign, which stands for no digit.

* `Letter` — what stands between quotes for one character: the character itself, or an escape.
* `ReadLetter` — what the reader takes for one: letters, and a code with a plus sign in place of its
  first digit.
* `Spells`, `Quotes` — text that is spelled letter by letter, and put between quotes.
* `readQuoted_eq_ok` — text behind a quote is read just as it is spelled.
* `read?_eq_str` — the texts that denote a text constant are those that quote it.
-/

open Text

/-- `c` is the hexadecimal digit for `n`, in lower or in upper case. -/
def IsHexDigit (c : Char) (n : Nat) : Prop :=
  "0123456789abcdef".toList[n]? = some c ∨ "0123456789ABCDEF".toList[n]? = some c

/-- Whether a character is the digit of a number is a matter of comparing characters. -/
instance (c : Char) (n : Nat) : Decidable (IsHexDigit c n) := inferInstanceAs (Decidable (_ ∨ _))

/-- What stands behind a backslash for one character. -/
inductive Escape : List Char → Char → Prop where
  | newline : Escape ['n'] '\n'
  | tab : Escape ['t'] '\t'
  | carriageReturn : Escape ['r'] '\r'
  | null : Escape ['0'] '\x00'
  | code {a b : Char} {m n : Nat} : IsHexDigit a m → IsHexDigit b n →
      Escape ['x', a, b] (Char.ofNat (16 * m + n))
  | itself {c : Char} : c ∉ ['n', 't', 'r', '0', 'x'] → Escape [c] c

/-- What stands between quotes `q` for one character. -/
inductive Letter (q : Char) : List Char → Char → Prop where
  | plain {c : Char} : c ≠ q → c ≠ '\\' → Letter q [c] c
  | escape {cs : List Char} {c : Char} : Escape cs c → Letter q ('\\' :: cs) c

/-- What is read between quotes `q` for one character: a code may have a plus sign and one digit in
    place of two digits. -/
inductive ReadLetter (q : Char) : List Char → Char → Prop where
  | letter {cs : List Char} {c : Char} : Letter q cs c → ReadLetter q cs c
  | signed {d : Char} {n : Nat} : IsHexDigit d n → ReadLetter q ['\\', 'x', '+', d] (Char.ofNat n)

/-- The text is spelled letter by letter, in a language `L` of letters. -/
inductive Spells (L : List Char → Char → Prop) : List Char → List Char → Prop where
  | nil : Spells L [] []
  | cons {cs body s : List Char} {c : Char} : L cs c → Spells L body s →
      Spells L (cs ++ body) (c :: s)

/-- But for blanks around it, the text is a quote, letters that spell `s`, and the same quote. -/
def Quotes (L : Char → List Char → Char → Prop) (text s : List Char) : Prop :=
  ∃ before q body behind, text = before ++ q :: (body ++ q :: behind) ∧
    (∀ c ∈ before, isBlank c = true) ∧ (∀ c ∈ behind, isBlank c = true) ∧
    (q = doubleQuote ∨ q = singleQuote) ∧ Spells (L q) body s

variable {q a b c : Char} {cs body s text rest : List Char} {n fuel : Nat}

/-! ### Digits -/

/-- Hexadecimal digits are ASCII characters, so that the grammar of digits can be checked on
    these. -/
theorem toNat_lt_of_hexDigit? (h : hexDigit? c = some n) : c.toNat < 128 := by
  unfold hexDigit? at h
  split at h
  · rename_i hdigit
    have hle : c.val ≤ 57 := (Char.isDigit_iff_toNat.1 hdigit).2
    exact Nat.lt_of_le_of_lt hle (by decide)
  split at h
  · rename_i hlower
    exact Nat.lt_of_le_of_lt (show c.val ≤ 102 from hlower.2) (by decide)
  split at h
  · rename_i hupper
    exact Nat.lt_of_le_of_lt (show c.val ≤ 70 from hupper.2) (by decide)
  · cases h

/-- **Digits.** The reader of digits accepts those of the grammar, in both cases. -/
theorem hexDigit?_eq_some : hexDigit? c = some n ↔ IsHexDigit c n := by
  constructor
  · have hall : ∀ k : Fin 128, ∀ n ∈ hexDigit? (Char.ofNat k.val),
        IsHexDigit (Char.ofNat k.val) n := by decide +kernel
    intro h
    have hc := hall ⟨c.toNat, toNat_lt_of_hexDigit? h⟩
    rw [Char.ofNat_toNat] at hc
    exact hc n h
  · have hlower : ∀ k : Fin 16,
        "0123456789abcdef".toList[k.val]?.bind hexDigit? = some k.val := by decide +kernel
    have hupper : ∀ k : Fin 16,
        "0123456789ABCDEF".toList[k.val]?.bind hexDigit? = some k.val := by decide +kernel
    rintro (h | h)
    · obtain ⟨hn, -⟩ := List.getElem?_eq_some_iff.1 h
      have hk := hlower ⟨n, hn⟩
      rwa [h, Option.bind_some] at hk
    · obtain ⟨hn, -⟩ := List.getElem?_eq_some_iff.1 h
      have hk := hupper ⟨n, hn⟩
      rwa [h, Option.bind_some] at hk

/-- The plus sign, which the reader takes for `0` in front of a digit, is no digit of the
    grammar. -/
theorem not_isHexDigit_plus : ¬IsHexDigit '+' n := by
  rw [← hexDigit?_eq_some]
  nofun

/-- Two characters denote a byte by two digits, or by a plus sign and a digit. -/
theorem hexByte?_eq_some : hexByte? [a, b] = some n ↔
    (∃ x y, IsHexDigit a x ∧ IsHexDigit b y ∧ 16 * x + y = n) ∨ (a = '+' ∧ IsHexDigit b n) := by
  rw [hexByte?]
  by_cases ha : a = '+'
  · subst ha
    rw [if_pos rfl, hexDigit?_eq_some]
    constructor
    · exact fun h => .inr ⟨rfl, h⟩
    · rintro (⟨x, y, hplus, -⟩ | ⟨-, h⟩)
      · exact absurd hplus not_isHexDigit_plus
      · exact h
  · simp only [if_neg ha, Option.bind_eq_some_iff, Option.map_eq_some_iff, hexDigit?_eq_some]
    constructor
    · rintro ⟨x, hx, y, hy, h⟩
      exact .inl ⟨x, y, hx, hy, h⟩
    · rintro (⟨x, y, hx, hy, h⟩ | ⟨hplus, -⟩)
      · exact ⟨x, hx, y, hy, h⟩
      · exact absurd hplus ha

/-! ### Reading a letter -/

/-- What stands behind a backslash, but for the mark of a code, is an escape. -/
theorem escape_escaped (hc : c ≠ 'x') : Escape [c] (escaped c) := by
  by_cases hn : c = 'n'
  · rw [hn]
    exact .newline
  by_cases ht : c = 't'
  · rw [ht]
    exact .tab
  by_cases hr : c = 'r'
  · rw [hr]
    exact .carriageReturn
  by_cases h0 : c = '0'
  · rw [h0]
    exact .null
  have hself : escaped c = c := by simp [escaped, hn, ht, hr, h0]
  have hescape : Escape [c] c := .itself (by simp [hn, ht, hr, h0, hc])
  rwa [hself]

/-- Two characters behind the mark of a code are read as the character with that code. -/
theorem readQuoted_code (h : hexByte? [a, b] = some n) :
    readQuoted q ('\\' :: 'x' :: a :: b :: rest) =
      consRead (Char.ofNat n) <$> readQuoted q rest := by
  show (do let c ← hexChar [a, b]; consRead c <$> readQuoted q rest) = _
  rw [hexChar, h]
  rfl

/-- Reading an escape finds the character that the grammar gives it. -/
theorem Escape.read (h : Escape cs c) (rest : List Char) :
    readQuoted q ('\\' :: (cs ++ rest)) = consRead c <$> readQuoted q rest := by
  cases h with
  | newline | tab | carriageReturn | null => exact readQuoted_escape (by decide)
  | code ha hb => exact readQuoted_code (hexByte?_eq_some.2 (.inl ⟨_, _, ha, hb, rfl⟩))
  | itself hc =>
    obtain ⟨hn, ht, hr, h0, hx⟩ : c ≠ 'n' ∧ c ≠ 't' ∧ c ≠ 'r' ∧ c ≠ '0' ∧ c ≠ 'x' := by
      simpa using hc
    have hself : escaped c = c := by simp [escaped, hn, ht, hr, h0]
    have hread : readQuoted q ('\\' :: c :: rest) = consRead (escaped c) <$> readQuoted q rest :=
      readQuoted_escape hx
    rwa [hself] at hread

/-- A letter is read as its character. -/
theorem ReadLetter.read (h : ReadLetter q cs c) (rest : List Char) :
    readQuoted q (cs ++ rest) = consRead c <$> readQuoted q rest := by
  cases h with
  | signed hd => exact readQuoted_code (hexByte?_eq_some.2 (.inr ⟨rfl, hd⟩))
  | letter h =>
    cases h with
    | plain hq hc => exact (readQuoted_cons hc).trans (if_neg hq)
    | escape h => exact h.read rest

/-- What is read as the character with a code is a letter for it. -/
theorem readLetter_of_hexChar (h : hexChar [a, b] = .ok c) : ReadLetter q ['\\', 'x', a, b] c := by
  unfold hexChar at h
  split at h
  · rename_i n hn
    cases h
    rcases hexByte?_eq_some.1 hn with ⟨x, y, ha, hb, rfl⟩ | ⟨rfl, hb⟩
    · exact .letter (.escape (.code ha hb))
    · exact .signed hb
  · cases h

/-! ### Reading letter by letter -/

/-- What is spelled is read, up to the closing quote. -/
theorem readQuoted_of_spells (hq : q ≠ '\\') (h : Spells (ReadLetter q) body s) (rest : List Char) :
    readQuoted q (body ++ q :: rest) = .ok (s, rest) := by
  induction h with
  | nil => exact (readQuoted_cons hq).trans (if_pos rfl)
  | cons hc _ ih =>
    rw [List.append_assoc, hc.read, ih]
    rfl

/-- The text is spelled in front of the closing quote `q`, which `rest` stands behind. -/
def SpelledBefore (q : Char) (rest cs s : List Char) : Prop :=
  ∃ body, cs = body ++ q :: rest ∧ Spells (ReadLetter q) body s

/-- A letter that was read stands in front of what was read behind it. -/
theorem SpelledBefore.of_consRead (hletter : ReadLetter q cs c)
    (ih : ∀ {s}, readQuoted q text = .ok (s, rest) → SpelledBefore q rest text s)
    (h : consRead c <$> readQuoted q text = .ok (s, rest)) :
    SpelledBefore q rest (cs ++ text) s := by
  obtain ⟨⟨s', rest'⟩, hread, h⟩ := map_eq_ok.1 h
  cases h
  obtain ⟨body, rfl, hbody⟩ := ih hread
  exact ⟨cs ++ body, (List.append_assoc ..).symm, .cons hletter hbody⟩

/-- What excludes the empty text and every other one is not the case. -/
theorem not_of_cons {P : Prop} (hnil : P → cs = [] → False)
    (hcons : ∀ c rest, P → cs = c :: rest → False) : ¬P := by
  intro h
  cases cs with
  | nil => exact hnil h rfl
  | cons c rest => exact hcons c rest h rfl

/-- What is read is spelled by the characters before the closing quote. -/
theorem spelledBefore_of_readQuoted (h : readQuoted q cs = .ok (s, rest)) :
    SpelledBefore q rest cs s := by
  induction cs using readQuoted.induct (q := q) generalizing s with
  | case1 | case2 | case3 => cases h
  | case4 a =>
    obtain ⟨_, -, h⟩ := bind_eq_ok.1 h
    cases h
  | case5 a b text ih =>
    obtain ⟨c, hc, h⟩ := bind_eq_ok.1 h
    exact .of_consRead (readLetter_of_hexChar hc) ih h
  | case6 c text hnil hone htwo ih =>
    -- The other forms of a text behind a backslash are those with the mark of a code.
    have hx : c ≠ 'x' := by
      rintro rfl
      match text with
      | [] => exact hnil rfl rfl
      | [a] => exact hone a rfl rfl
      | a :: b :: text => exact htwo a b text rfl rfl
    rw [readQuoted_escape hx] at h
    exact .of_consRead (.letter (.escape (escape_escaped hx))) ih h
  | case7 text hnil _ _ _ hcons =>
    rw [readQuoted_cons (not_of_cons hnil hcons), if_pos rfl] at h
    cases h
    exact ⟨[], rfl, .nil⟩
  | case8 c text hnil _ _ _ hcons hq ih =>
    have hslash : c ≠ '\\' := not_of_cons hnil hcons
    rw [readQuoted_cons hslash, if_neg hq] at h
    exact .of_consRead (.letter (.plain hq hslash)) ih h

/-- **Letters.** Text behind a quote is read just as it is spelled in front of the same quote. -/
theorem readQuoted_eq_ok (hq : q ≠ '\\') :
    readQuoted q cs = .ok (s, rest) ↔ SpelledBefore q rest cs s := by
  constructor
  · exact spelledBefore_of_readQuoted
  · rintro ⟨body, rfl, h⟩
    exact readQuoted_of_spells hq h rest

/-! ### Reading a value -/

/-- There are two quotes. -/
theorem isQuote_iff : isQuote q = true ↔ q = doubleQuote ∨ q = singleQuote := by
  simp [isQuote]

/-- A quote is no blank and begins no other form of constant. -/
theorem begins_quote (hq : q = doubleQuote ∨ q = singleQuote) :
    isBlank q = false ∧ q ≠ '(' ∧ q ≠ '\\' := by
  rcases hq with rfl | rfl <;> decide

/-- No word denotes a text. -/
theorem ofWord_ne_str {t : String} : ofWord cs ≠ .ok (.str t) := by
  unfold ofWord
  repeat' split
  all_goals nofun

/-- Blanks in front of a text are skipped with the blanks of the text. -/
theorem skipBlanks_append (h : ∀ c ∈ cs, isBlank c = true) :
    skipBlanks (cs ++ text) = skipBlanks text :=
  List.dropWhile_append_of_pos h

/-- A value that is a text is quoted. -/
theorem exists_quoted_of_readValue {t : String} (h : readValue (fuel + 1) cs = .ok (.str t, rest)) :
    ∃ q text, skipBlanks cs = q :: text ∧ isQuote q = true ∧
      readQuoted q text = .ok (t.toList, rest) := by
  rw [readValue] at h
  split at h
  · cases h
  · -- What starts with a bracket is a tuple.
    obtain ⟨_, -, h⟩ := bind_eq_ok.1 h
    cases h
  · rename_i q text _ hskip
    split at h
    · rename_i hq
      obtain ⟨⟨s, rest'⟩, hread, h⟩ := bind_eq_ok.1 h
      cases h
      refine ⟨q, text, hskip, hq, ?_⟩
      rwa [String.toList_ofList]
    split at h
    · obtain ⟨_, -, h⟩ := bind_eq_ok.1 h
      obtain ⟨_, -, h⟩ := bind_eq_ok.1 h
      cases h
    · obtain ⟨value, hvalue, h⟩ := bind_eq_ok.1 h
      cases h
      exact absurd hvalue ofWord_ne_str

/-- A quote is read as the text behind it. -/
theorem readValue_of_quoted {t : String} (hskip : skipBlanks cs = q :: text) (hq : isQuote q = true)
    (h : readQuoted q text = .ok (t.toList, rest)) :
    readValue (fuel + 1) cs = .ok (.str t, rest) := by
  obtain ⟨-, hopen, -⟩ := begins_quote (isQuote_iff.1 hq)
  rw [readValue, hskip]
  split
  · rename_i h
    cases h
  · rename_i h
    exact absurd (List.cons.inj h).1 hopen
  · rename_i h'
    obtain ⟨rfl, rfl⟩ := List.cons.inj h'
    rw [if_pos hq, h]
    show Except.ok (Const.str (String.ofList t.toList), rest) = _
    rw [String.ofList_toList]

/-- Nothing is left exactly of blanks. -/
theorem skipBlanks_eq_nil : skipBlanks cs = [] ↔ ∀ c ∈ cs, isBlank c = true :=
  List.dropWhile_eq_nil_iff

/-- A text denotes the value that is read in it if nothing but blanks follows. -/
theorem readChars?_eq_ok {value : Const} : readChars? cs = .ok value ↔
    ∃ behind, readValue (2 * cs.length + 2) cs = .ok (value, behind) ∧
      ∀ c ∈ behind, isBlank c = true := by
  rw [readChars?, bind_eq_ok]
  constructor
  · rintro ⟨⟨value', behind⟩, hvalue, h⟩
    cases hskip : skipBlanks behind with
    | nil =>
      simp only [hskip] at h
      cases h
      exact ⟨behind, hvalue, skipBlanks_eq_nil.1 hskip⟩
    | cons d ds =>
      simp only [hskip] at h
      cases h
  · rintro ⟨behind, hvalue, hbehind⟩
    refine ⟨_, hvalue, ?_⟩
    simp only [skipBlanks_eq_nil.2 hbehind]
    rfl

/-- What is left when blanks are skipped stands behind blanks. -/
theorem exists_blanks (text : List Char) :
    ∃ before, text = before ++ skipBlanks text ∧ ∀ c ∈ before, isBlank c = true :=
  ⟨text.takeWhile isBlank, (List.takeWhile_append_dropWhile ..).symm,
    fun _ hc => List.mem_takeWhile_imp hc⟩

/-- **Texts.** A text constant is denoted by what quotes it, in letters and in codes with a plus
    sign, and by nothing else. -/
theorem read?_eq_str (text s : String) :
    read? text = .ok (.str s) ↔ Quotes ReadLetter text.toList s.toList := by
  rw [read?, readChars?_eq_ok]
  constructor
  · rintro ⟨behind, hvalue, hbehind⟩
    obtain ⟨q, rest, hskip, hq, hread⟩ := exists_quoted_of_readValue hvalue
    have hquote := isQuote_iff.1 hq
    obtain ⟨-, -, hslash⟩ := begins_quote hquote
    obtain ⟨body, rfl, hbody⟩ := (readQuoted_eq_ok hslash).1 hread
    obtain ⟨before, htext, hbefore⟩ := exists_blanks text.toList
    rw [hskip] at htext
    exact ⟨before, q, body, behind, htext, hbefore, hbehind, hquote, hbody⟩
  · rintro ⟨before, q, body, behind, htext, hbefore, hbehind, hq, hbody⟩
    obtain ⟨hblank, -, hslash⟩ := begins_quote hq
    have hskip : skipBlanks text.toList = q :: (body ++ q :: behind) := by
      rw [htext, skipBlanks_append hbefore]
      exact List.dropWhile_cons_of_neg (by simp [hblank])
    have hread : readQuoted q (body ++ q :: behind) = .ok (s.toList, behind) :=
      (readQuoted_eq_ok hslash).2 ⟨body, rfl, hbody⟩
    exact ⟨behind, readValue_of_quoted hskip (isQuote_iff.2 hq) hread, hbehind⟩

/-- A quoted code of a plus sign and a digit. -/
def plusFive : String := String.ofList [doubleQuote, '\\', 'x', '+', '5', doubleQuote]

/-- No letter begins with the code of a plus sign. -/
theorem not_letter_plus (h : Letter q cs c) : cs ++ text ≠ '\\' :: 'x' :: '+' :: rest := by
  intro heq
  cases h with
  | plain _ hslash => exact hslash (List.cons.inj heq).1
  | escape h =>
    have heq := (List.cons.inj heq).2
    cases h with
    | newline | tab | carriageReturn | null => cases heq
    | code hplus _ =>
      cases heq
      exact not_isHexDigit_plus hplus
    | itself hx =>
      cases heq
      exact hx (by decide)

/-- A plus sign is no digit, and yet the code that it begins is read. -/
theorem read?_plusFive :
    read? plusFive = .ok (.str "\x05") ∧ ¬Quotes Letter plusFive.toList "\x05".toList := by
  refine ⟨by decide +kernel, ?_⟩
  rintro ⟨before, q, body, behind, htext, hbefore, -, -, hbody⟩
  rw [plusFive, String.toList_ofList] at htext
  cases before with
  | nil =>
    have htext := (List.cons.inj htext).2
    -- The text has a character, so that letters stand between the quotes.
    cases hbody with
    | cons hletter _ =>
      rw [List.append_assoc] at htext
      exact not_letter_plus hletter htext.symm
  | cons d before =>
    obtain ⟨rfl, -⟩ := List.cons.inj htext
    exact absurd (hbefore doubleQuote List.mem_cons_self) (by decide)

end StackCode.Literal

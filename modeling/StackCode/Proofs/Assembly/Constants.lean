import StackCode.Proofs.Assembly.Lines
import StackCode.Proofs.Assembly.Literals

namespace StackCode

/-!
# Lines that load a constant

A line passes through several hands before its operand is read: comments are taken off, then blanks
at its ends, then the opcode in front.  The text of a constant has to come through all of them, and
what makes it do so is a property of its characters, kept by putting texts together.

* `Text.trim_eq_self`, `Text.lines_eq_singleton` — text without blanks around it; text on one line.
* `Assembly.Verbatim` — text that a line carries as it is: it opens no comment, leaves no quote open
  and does not end the line.
* `Assembly.verbatim_chars` — the text of a writable constant is such.
* `Assembly.State.line_loading` — what a line does that loads a writable constant.
* `Assembly.assembles_back` — a constant is displayed as text that assembles to it.
-/

namespace Text

variable {cs : List Char}

/-- Nothing is dropped from a text whose first character is no blank. -/
theorem dropWhile_isBlank_eq_self (h : ∀ d ∈ cs.head?, isBlank d = false) :
    cs.dropWhile isBlank = cs := by
  cases cs with
  | nil => rfl
  | cons d cs => exact List.dropWhile_cons_of_neg (by simp [h d rfl])

/-- Text is left as it is where no blank stands at its ends. -/
theorem trim_eq_self (hfirst : ∀ d ∈ cs.head?, isBlank d = false)
    (hlast : ∀ d ∈ cs.getLast?, isBlank d = false) : trim cs = cs := by
  rw [← List.head?_reverse] at hlast
  rw [trim, dropWhile_isBlank_eq_self hfirst, dropWhile_isBlank_eq_self hlast, List.reverse_reverse]

/-- Without a line break, all characters go to the line that is being read. -/
theorem linesFrom_of_not_mem (h : '\n' ∉ cs) (line : List Char) :
    linesFrom line cs = linesFrom (cs.reverse ++ line) [] := by
  induction cs generalizing line with
  | nil => rfl
  | cons c cs ih =>
    obtain ⟨hc, hcs⟩ := List.ne_and_not_mem_of_not_mem_cons h
    have hstep : linesFrom line (c :: cs) = linesFrom (c :: line) cs := by
      rw [linesFrom]
      exact Ne.symm hc
    rw [hstep, ih hcs, List.reverse_cons, List.append_assoc]
    rfl

/-- A text without a line break is one line. -/
theorem lines_eq_singleton (hne : cs ≠ []) (h : '\n' ∉ cs) : lines cs = [cs] := by
  have hempty : (cs.reverse ++ []).isEmpty = false := by
    rw [List.append_nil, List.isEmpty_reverse, List.isEmpty_eq_false_iff]
    exact hne
  rw [lines, linesFrom_of_not_mem h, linesFrom, hempty, if_neg Bool.false_ne_true, List.append_nil,
    List.reverse_reverse]

end Text

namespace Assembly

open Text Literal

variable {q d : Char} {cs ds rest : List Char} {c : Const} {items : List Const} {current : Nat}

/-! ### Text that a line carries as it is -/

/-- Text that opens no comment, leaves no quote open and does not end its line. -/
structure Verbatim (cs : List Char) : Prop where
  kept : ∀ rest, beforeComment none false (cs ++ rest) = cs ++ beforeComment none false rest
  oneLine : '\n' ∉ cs

/-- Texts that stand as they are stand as they are one behind the other. -/
theorem Verbatim.append (h : Verbatim cs) (h' : Verbatim ds) : Verbatim (cs ++ ds) where
  kept rest := by rw [List.append_assoc, h.kept, h'.kept, List.append_assoc]
  oneLine hmem := (List.mem_append.1 hmem).elim h.oneLine h'.oneLine

/-- Opens neither a comment nor a quote, and ends no line. -/
def isInert (d : Char) : Bool := d ≠ ';' && !isQuote d && d ≠ '\n'

/-- An inert character neither starts a comment, nor a quotation, nor a new line. -/
theorem isInert_iff : isInert d = true ↔ d ≠ ';' ∧ isQuote d = false ∧ d ≠ '\n' := by
  simp [isInert, and_assoc]

/-- Inert characters are carried. -/
theorem verbatim_of_all (h : cs.all isInert = true) : Verbatim cs where
  kept rest := by
    induction cs with
    | nil => rfl
    | cons d cs ih =>
      rw [List.all_cons, Bool.and_eq_true, isInert_iff] at h
      obtain ⟨⟨hcomment, hquote, -⟩, hcs⟩ := h
      show (if d = ';' then [] else
        d :: beforeComment (if isQuote d then some d else none) false (cs ++ rest)) = _
      rw [if_neg hcomment, hquote, if_neg Bool.false_ne_true, ih hcs]
      rfl
  oneLine hmem := (isInert_iff.1 (List.all_eq_true.1 h _ hmem)).2.2 rfl

/-! ### Quotes -/

/-- Between quotes, a character that is neither the quote nor a backslash changes nothing. -/
theorem beforeComment_cons (hq : d ≠ q) (hslash : d ≠ '\\') :
    beforeComment (some q) false (d :: rest) = d :: beforeComment (some q) false rest := by
  show (if d = '\\' then _ else d :: beforeComment (if d = q then none else some q) false rest) = _
  rw [if_neg hslash, if_neg hq]

/-- An item ends no quote and is carried as it is. -/
theorem beforeComment_item (hq : isQuote q = true) (h : Item q cs d) (rest : List Char) :
    beforeComment (some q) false (cs ++ rest) = cs ++ beforeComment (some q) false rest := by
  have hquote : hexDigit? q = none := by
    rcases Bool.or_eq_true_iff.1 hq with h | h
    · rw [of_decide_eq_true h]
      rfl
    · rw [of_decide_eq_true h]
      rfl
  cases h with
  | plain hne hslash _ => exact beforeComment_cons hne hslash
  | escape => rfl
  | hex ha hb =>
    -- A hexadecimal digit is neither a backslash nor a quote.
    show '\\' :: 'x' :: beforeComment (some q) false (_ :: _ :: rest) = _
    rw [beforeComment_cons (ne_of_hexDigit? ha hquote) (ne_of_hexDigit? ha rfl),
      beforeComment_cons (ne_of_hexDigit? hb hquote) (ne_of_hexDigit? hb rfl)]
    rfl

/-- What stands for a character within quotes holds no line break. -/
theorem newline_not_mem_item (h : Item q cs d) : '\n' ∉ cs := by
  cases h with
  | plain _ _ hline => simpa using Ne.symm hline
  | escape _ hline => simpa using Ne.symm hline
  | hex ha hb =>
    have hlinea := ne_of_hexDigit? (b := '\n') ha rfl
    have hlineb := ne_of_hexDigit? (b := '\n') hb rfl
    simp [hlinea.symm, hlineb.symm]

/-- Items are carried as they are, and the quote behind them is the one that closes. -/
theorem beforeComment_flatMap {α : Type} {f : α → List Char} {g : α → Char} {xs : List α}
    (hq : isQuote q = true) (h : ∀ x ∈ xs, Item q (f x) (g x)) (rest : List Char) :
    beforeComment (some q) false (xs.flatMap f ++ q :: rest) =
      xs.flatMap f ++ q :: beforeComment none false rest := by
  induction xs with
  | nil =>
    have hslash : q ≠ '\\' := by
      rintro rfl
      contradiction
    show (if q = '\\' then _ else
      q :: beforeComment (if q = q then none else some q) false rest) = _
    rw [if_neg hslash, if_pos rfl]
    rfl
  | cons x xs ih =>
    obtain ⟨hx, hxs⟩ := List.forall_mem_cons.1 h
    rw [List.flatMap_cons, List.append_assoc, beforeComment_item hq hx, ih hxs, List.append_assoc]

/-- What is quoted item by item is carried as it is. -/
theorem verbatim_quoted {α : Type} {f : α → List Char} {g : α → Char} {xs : List α}
    (hq : isQuote q = true) (h : ∀ x ∈ xs, Item q (f x) (g x)) :
    Verbatim (q :: xs.flatMap f ++ [q]) where
  kept rest := by
    have hcomment : q ≠ ';' := by
      rintro rfl
      contradiction
    have htext : q :: xs.flatMap f ++ [q] ++ rest = q :: (xs.flatMap f ++ q :: rest) := by simp
    rw [htext]
    -- The first quote opens, so that a `;` in an item begins no comment.
    show (if q = ';' then [] else
      q :: beforeComment (if isQuote q then some q else none) false _) = _
    rw [if_neg hcomment, hq, if_pos rfl, beforeComment_flatMap hq h]
    simp
  oneLine hmem := by
    have hline : '\n' ≠ q := by
      rintro rfl
      contradiction
    simp only [List.cons_append, List.mem_cons, List.mem_append, List.mem_flatMap, hline,
      List.not_mem_nil, or_false, false_or] at hmem
    obtain ⟨x, hx, hmem⟩ := hmem
    exact newline_not_mem_item (h x hx) hmem

/-! ### The text of a constant -/

/-- The rest of a tuple stands as it is when its items do. -/
theorem verbatim_charsRest (h : ∀ i ∈ items, Verbatim i.chars) :
    Verbatim (Const.charsRest items) := by
  induction items with
  | nil => exact verbatim_of_all (by decide)
  | cons item items ih =>
    obtain ⟨hitem, hitems⟩ := List.forall_mem_cons.1 h
    have hcomma : Verbatim [',', ' '] := verbatim_of_all (by decide)
    rw [Const.charsRest]
    exact (hcomma.append hitem).append (ih hitems)

/-- A tuple stands as it is when its items do. -/
theorem verbatim_tuple (h : ∀ i ∈ items, Verbatim i.chars) :
    Verbatim (Const.chars (.tuple items)) := by
  have hopen : Verbatim ['('] := verbatim_of_all (by decide)
  show Verbatim (['('] ++ Const.charsItems items)
  refine hopen.append ?_
  match items with
  | [] => exact verbatim_of_all (by decide)
  | [item] =>
    have hclose : Verbatim [',', ')'] := verbatim_of_all (by decide)
    rw [Const.charsItems]
    exact (h item List.mem_cons_self).append hclose
  | item :: next :: items =>
    obtain ⟨hitem, hitems⟩ := List.forall_mem_cons.1 h
    rw [charsItems_cons_cons]
    exact hitem.append (verbatim_charsRest hitems)

/-- Constants that are words consist of inert characters. -/
theorem verbatim_word (h : c.isWord = true) : Verbatim c.chars := by
  have hinert : wordChars.all isInert = true := by decide
  rw [List.all_eq_true] at hinert
  exact verbatim_of_all (List.all_eq_true.2 fun d hd => hinert d (mem_wordChars h d hd))

/-- The text of a writable constant is carried as it is. -/
theorem verbatim_chars (h : c.Writable) : Verbatim c.chars := by
  induction h with
  | none | ellipsis | bool | int => exact verbatim_word rfl
  | str hs => exact verbatim_quoted (by decide) fun d hd => item_quoteChar (hs d hd)
  | bytes bs =>
    have hprefix : Verbatim ['b'] := verbatim_of_all (by decide)
    exact hprefix.append (verbatim_quoted (by decide) fun b _ => item_quoteByte b)
  | tuple _ ih => exact verbatim_tuple ih

/-- The rest of a tuple ends in its closing parenthesis. -/
theorem exists_charsRest_concat (items : List Const) :
    ∃ cs, Const.charsRest items = cs ++ [')'] := by
  induction items with
  | nil => exact ⟨[], rfl⟩
  | cons item items ih =>
    obtain ⟨cs, hcs⟩ := ih
    exact ⟨',' :: ' ' :: item.chars ++ cs, by rw [Const.charsRest, hcs, List.append_assoc]⟩

/-- The items of a tuple end in its closing parenthesis. -/
theorem exists_charsItems_concat (items : List Const) :
    ∃ cs, Const.charsItems items = cs ++ [')'] := by
  match items with
  | [] => exact ⟨[], rfl⟩
  | [item] => exact ⟨item.chars ++ [','], by rw [Const.charsItems, List.append_assoc]; rfl⟩
  | item :: next :: items =>
    obtain ⟨cs, hcs⟩ := exists_charsRest_concat (next :: items)
    exact ⟨item.chars ++ cs, by rw [charsItems_cons_cons, hcs, List.append_assoc]⟩

/-- A word ends neither in a blank nor in a colon, which would make a label of its line. -/
theorem getLast?_word (h : c.isWord = true) :
    ∀ d ∈ c.chars.getLast?, isBlank d = false ∧ d ≠ ':' := by
  intro d hd
  have hall : ∀ d ∈ wordChars, isBlank d = false ∧ d ≠ ':' := forall_mem_of_all (by decide)
  exact hall d (mem_wordChars h d (List.mem_of_getLast? hd))

/-- The text of a writable constant ends with neither a blank nor a colon. -/
theorem getLast?_chars (h : c.Writable) : ∀ d ∈ c.chars.getLast?, isBlank d = false ∧ d ≠ ':' := by
  have hconcat : ∀ (cs : List Char) (d : Char), isBlank d = false ∧ d ≠ ':' →
      ∀ e ∈ (cs ++ [d]).getLast?, isBlank e = false ∧ e ≠ ':' := by
    intro cs d hd e he
    rw [List.getLast?_concat] at he
    cases he
    exact hd
  cases h with
  | none | ellipsis | bool | int => exact getLast?_word rfl
  | @str s _ => exact hconcat (doubleQuote :: s.toList.flatMap quoteChar) doubleQuote (by decide)
  | bytes bs =>
    exact hconcat ('b' :: doubleQuote :: bs.flatMap quoteByte) doubleQuote (by decide)
  | @tuple items _ =>
    obtain ⟨cs, hcs⟩ := exists_charsItems_concat items
    rw [Const.chars, hcs]
    exact hconcat ('(' :: cs) ')' (by decide)

/-- The text of a writable constant has no blanks at its ends. -/
theorem trim_chars (h : c.Writable) : trim c.chars = c.chars := by
  obtain ⟨d, cs, hcs, hblank, -⟩ := exists_chars_cons h
  refine trim_eq_self ?_ fun d hd => (getLast?_chars h d hd).1
  rw [hcs]
  rintro d hd
  cases hd
  exact hblank

/-! ### Lines -/

/-- The line that loads a constant. -/
def loading (c : Const) : List Char := "LOAD_CONST ".toList ++ c.chars

/-- The line that loads a writable constant stands as it is. -/
theorem verbatim_loading (h : c.Writable) : Verbatim (loading c) :=
  (verbatim_of_all (by decide)).append (verbatim_chars h)

/-- That line ends neither in a blank nor in a colon. -/
theorem getLast?_loading (h : c.Writable) :
    ∀ d ∈ (loading c).getLast?, isBlank d = false ∧ d ≠ ':' := by
  obtain ⟨d, cs, hcs, -, -⟩ := exists_chars_cons h
  have hlast : (loading c).getLast? = c.chars.getLast? :=
    List.getLast?_append_of_ne_nil _ (hcs ▸ List.cons_ne_nil _ _)
  rw [hlast]
  exact getLast?_chars h

/-- No part of that line is taken for a comment. -/
theorem stripComment_loading (h : c.Writable) : stripComment (loading c) = loading c := by
  have hkept := (verbatim_loading h).kept []
  rw [List.append_nil] at hkept
  -- The line begins with the name of its opcode, and so is no comment as a whole.
  show beforeComment none false (loading c) = _
  rw [hkept]
  exact List.append_nil _

/-- A line that loads a writable constant is an instruction line. -/
theorem read_loading (h : c.Writable) : Line.read (loading c) = .instruction (loading c) := by
  have hlabel : (loading c).getLast? ≠ some ':' := fun hcolon =>
    (getLast?_loading h ':' hcolon).2 rfl
  have htrim : trim (loading c) = loading c :=
    trim_eq_self (by rintro d hd; cases hd; decide) fun d hd => (getLast?_loading h d hd).1
  have hne : loading c ≠ [] := List.cons_ne_nil _ _
  have hdot : ∀ rest, loading c ≠ '.' :: rest := fun _ h =>
    absurd (List.cons.inj h).1 (by decide)
  rw [Line.read, stripComment_loading h, htrim, Line.ofText_of_ne hne hdot, if_neg hlabel]

/-- The operand of an instruction that loads a constant is read from the constant's text. -/
theorem State.operand_chars (s : State) (h : c.Writable) :
    s.operand current .loadConst c.chars = .ok (.const c, s) := by
  obtain ⟨d, cs, hcs, -, -⟩ := exists_chars_cons h
  have hne : c.chars.isEmpty = false := by rw [hcs]; rfl
  have hclass : Opcode.loadConst.operandClass = .const := rfl
  unfold State.operand
  simp only [hclass, hne, Bool.false_eq_true, if_false, readChars?_chars h]

/-- **Loading.** In every state of the assembler, the line pushes the instruction that loads the
    constant. -/
theorem State.line_loading (s : State) (h : c.Writable) :
    s.line current (loading c) = (·.2) <$> s.build (Builder.push .loadConst (.const c)) := by
  -- The first blank stands behind the name of the opcode, whatever blanks the constant has.
  have hcut : cutAtBlank (loading c) = ("LOAD_CONST".toList, c.chars) := rfl
  have hopcode : Opcode.ofName? (String.ofList ("LOAD_CONST".toList.map Char.toUpper)) =
      .ok .loadConst := by decide
  rw [State.line_eq, read_loading h]
  show s.instruction current (loading c) = _
  rw [State.instruction, hcut]
  dsimp only
  rw [hopcode]
  dsimp only
  rw [trim_chars h, State.operand_chars s h]
  rfl

/-- A text of one line that loads a writable constant is assembled to the instruction that loads
    it. -/
theorem exists_assemble?_loading (h : c.Writable) :
    ∃ r, assemble? (String.ofList (loading c)) = .ok r ∧
      r.code.map (·.2) = [⟨.loadConst, .const c⟩] := by
  have hlines : lines (String.ofList (loading c)).toList = [loading c] := by
    rw [String.toList_ofList]
    exact lines_eq_singleton (List.cons_ne_nil _ _) (verbatim_loading h).oneLine
  -- A builder that has nothing yet takes the instruction, with no label to steal from.
  obtain ⟨id, s, hpush⟩ : ∃ id s, State.build {} (Builder.push .loadConst (.const c)) =
      .ok (id, s) := ⟨_, _, rfl⟩
  have hline : State.line {} 1 (loading c) = .ok s := by rw [State.line_loading _ h, hpush]; rfl
  have hrun : State.run {} 1 [loading c] = .ok s := by rw [State.run, hline]; rfl
  rw [assemble?, hlines]
  cases hpush
  exact ⟨_, bind_eq_ok.2 ⟨_, hrun, rfl⟩, rfl⟩

/-- **Displayed constants.** A writable constant is displayed as text that denotes it, and a line
    that loads this text is assembled to the instruction that loads the constant. -/
theorem assembles_back (c : Const) (h : c.Writable) :
    (∃ r, assemble? ("LOAD_CONST " ++ c.text) = .ok r ∧
      r.code.map (·.2) = [⟨.loadConst, .const c⟩]) ∧
      Literal.read? c.text = .ok c := by
  have hloading : "LOAD_CONST " ++ c.text = String.ofList (loading c) := by
    apply String.toList_inj.1
    rw [String.toList_append, Const.text]
    exact (congrArg _ String.toList_ofList).trans String.toList_ofList.symm
  rw [hloading]
  refine ⟨exists_assemble?_loading h, ?_⟩
  rw [Literal.read?, Const.text, String.toList_ofList, readChars?_chars h]

/-- Quotes, comment signs, a colon and escapes in a tuple of tuples. -/
theorem assembles_back_nested :
    let c : Const := .tuple [.tuple [.str "a;\x22#\x27:\\\n\x00"], .bytes [0, 59, 34, 255],
      .int Int64.minValue, .tuple [], .ellipsis, .bool false, .none]
    c.text = "((\x22a;\\\x22#\x27:\\\\\\n\\0\x22,), b\x22\\x00;\\\x22\\xff\x22, " ++
        "-9223372036854775808, (), ..., False, None)" ∧
      (∃ r, assemble? ("LOAD_CONST " ++ c.text) = .ok r ∧
        r.code.map (·.2) = [⟨.loadConst, .const c⟩]) ∧
      Literal.read? c.text = .ok c := by
  refine ⟨by decide +kernel, assembles_back _ (.tuple ?_)⟩
  have hplain : ∀ d ∈ "a;\x22#\x27:\\\n\x00".toList, IsPlain d := by
    unfold IsPlain
    exact forall_mem_of_all (by decide)
  intro item hitem
  simp only [List.mem_cons, List.not_mem_nil, or_false] at hitem
  obtain rfl | rfl | rfl | rfl | rfl | rfl | rfl := hitem
  · exact .tuple fun item hitem => List.mem_singleton.1 hitem ▸ .str hplain
  · exact .bytes _
  · exact .int _
  · exact .tuple nofun
  · exact .ellipsis
  · exact .bool _
  · exact .none

end Assembly

end StackCode

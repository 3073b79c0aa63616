import StackCode.Proofs.Assembly.Quoted
import StackCode.Proofs.Text.Numeral

namespace StackCode

/-!
# Reading the text of a constant

Tuples nest, and the reader runs on fuel.  A turn takes a character at least, so a text is read with
as much fuel as it has characters; the induction is on the constant, for any fuel from there on and
for any rest behind the text that does not go on with a word.

* `Const.Writable` — constants without floats and units, whose texts are of plain characters.
* `Literal.readValue_word`, `Literal.readValue_quote`, `Literal.readValue_quoteBytes` — words and
  quoted text are read up to their end.
* `Literal.ReadsBack` — the text of a constant is read as the constant, whatever ends it.
* `Literal.readItems_chars` — the items of a tuple are read one by one.
* `Literal.readsBack_of_writable` — the text of a writable constant is read back.
-/

/-- Constants whose text can be read: no floats and no units, and text of plain characters. -/
inductive Const.Writable : Const → Prop where
  | none : Writable .none
  | ellipsis : Writable .ellipsis
  | bool (b : Bool) : Writable (.bool b)
  | int (v : Int64) : Writable (.int v)
  | str {s : String} : (∀ c ∈ s.toList, Text.IsPlain c) → Writable (.str s)
  | bytes (bs : List UInt8) : Writable (.bytes bs)
  | tuple {items : List Const} : (∀ item ∈ items, Writable item) → Writable (.tuple items)

/-- The text is a single word: a name or an integer. -/
def Const.isWord : Const → Bool
  | none | ellipsis | bool _ | int _ => true
  | _ => false

namespace Literal

open Text

variable {fuel : Nat} {d : Char} {w cs rest : List Char} {c item : Const} {items : List Const}

/-! ### Words -/

/-- The characters of names and integers. -/
def wordChars : List Char :=
  signAndDigits ++ ['N', 'o', 'n', 'e', 'T', 'r', 'u', 'F', 'a', 'l', 's', '.']

/-- The characters of written words are characters of words to the reader. -/
theorem inWord_of_mem (h : d ∈ wordChars) : inWord d = true :=
  List.all_eq_true.1 (show wordChars.all inWord = true by decide) d h

/-- A constant that is a word is written in these characters. -/
theorem mem_wordChars (h : c.isWord = true) : ∀ d ∈ c.chars, d ∈ wordChars := by
  cases c with
  | none | ellipsis => exact forall_mem_of_all (by decide)
  | bool b => cases b <;> exact forall_mem_of_all (by decide)
  | int v => exact forall_mem_ofInt (fun d hd => List.mem_append_left _ hd) v.toInt
  | _ => cases h

/-- No other form of constant begins with a character of a word. -/
theorem begins_word_of_mem (h : d ∈ wordChars) :
    isBlank d = false ∧ d ≠ '(' ∧ isQuote d = false ∧ d ≠ 'b' := by
  have hall : ∀ d ∈ wordChars, isBlank d = false ∧ d ≠ '(' ∧ isQuote d = false ∧ d ≠ 'b' :=
    forall_mem_of_all (by decide)
  exact hall d h

/-- What may stand behind a word: a blank, a comma, a closing bracket, or nothing. -/
def Ends (rest : List Char) : Prop := ∀ d ∈ rest.head?, inWord d = false

/-- Nothing more belongs to a word where a word ends. -/
theorem takeWhile_of_ends (h : Ends rest) : rest.takeWhile inWord = [] := by
  cases rest with
  | nil => rfl
  | cons d rest => rw [List.takeWhile_cons_of_neg (by simp [h d rfl])]

/-- All of the rest stays where a word ends. -/
theorem dropWhile_of_ends (h : Ends rest) : rest.dropWhile inWord = rest := by
  cases rest with
  | nil => rfl
  | cons d rest => rw [List.dropWhile_cons_of_neg (by simp [h d rfl])]

/-- A character that is no blank is not skipped. -/
theorem skipBlanks_cons (h : isBlank d = false) : skipBlanks (d :: cs) = d :: cs :=
  List.dropWhile_cons_of_neg (by simp [h])

/-- A word is read up to its end. -/
theorem readValue_word (hne : w ≠ []) (hw : ∀ d ∈ w, d ∈ wordChars) (hvalue : ofWord w = .ok c)
    (hrest : Ends rest) : readValue (fuel + 1) (w ++ rest) = .ok (c, rest) := by
  have hin : ∀ d ∈ w, inWord d = true := fun d hd => inWord_of_mem (hw d hd)
  obtain ⟨d, w, rfl⟩ := List.exists_cons_of_ne_nil hne
  obtain ⟨hblank, hopen, hquote, hb⟩ := begins_word_of_mem (hw d List.mem_cons_self)
  have htake : (d :: w ++ rest).takeWhile inWord = d :: w := by
    rw [List.takeWhile_append_of_pos hin, takeWhile_of_ends hrest, List.append_nil]
  have hdrop : (d :: w ++ rest).dropWhile inWord = rest := by
    rw [List.dropWhile_append_of_pos hin, dropWhile_of_ends hrest]
  rw [List.cons_append] at htake hdrop ⊢
  -- Of the forms of a constant, a word is the one that is tried last.
  rw [readValue, skipBlanks_cons hblank]
  split
  · rename_i h
    cases h
  · rename_i h
    exact absurd (List.cons.inj h).1 hopen
  · rename_i h
    obtain ⟨rfl, rfl⟩ := List.cons.inj h
    rw [if_neg (by simp [hquote]), if_neg (by simp [hb]), htake, hdrop, hvalue]
    rfl

/-- An integer is no other word. -/
theorem ofInt_ne (hd : d ∈ w) (hout : d ∉ signAndDigits) (i : Int) : ofInt i ≠ w := by
  rintro rfl
  exact hout (forall_mem_ofInt (fun c hc => hc) i d hd)

/-- The digits of an integer are read as the integer. -/
theorem ofWord_ofInt (v : Int64) : ofWord (ofInt v.toInt) = .ok (.int v) := by
  unfold ofWord
  rw [if_neg (ofInt_ne (d := 'N') (by decide) (by decide) _),
    if_neg (ofInt_ne (d := 'T') (by decide) (by decide) _),
    if_neg (ofInt_ne (d := 'F') (by decide) (by decide) _),
    if_neg (ofInt_ne (d := '.') (by decide) (by decide) _), readInt64?_ofInt]

/-! ### Quotes -/

/-- A quoted text is read back, up to its closing quote. -/
theorem readValue_quote {s : String} (h : ∀ c ∈ s.toList, IsPlain c) (rest : List Char) :
    readValue (fuel + 1) (quote s ++ rest) = .ok (.str s, rest) := by
  have htext : quote s ++ rest =
      doubleQuote :: (s.toList.flatMap quoteChar ++ doubleQuote :: rest) := by
    simp [quote]
  have hvalue : Const.str (String.ofList s.toList) = .str s := by rw [String.ofList_toList]
  rw [htext, ← hvalue]
  exact bind_eq_ok.2 ⟨(s.toList, rest), readQuoted_quote h rest, rfl⟩

/-- Quoted bytes are read back, up to their closing quote. -/
theorem readValue_quoteBytes (bs : List UInt8) (rest : List Char) :
    readValue (fuel + 1) ('b' :: quoteBytes bs ++ rest) = .ok (.bytes bs, rest) := by
  have htext : 'b' :: quoteBytes bs ++ rest =
      'b' :: doubleQuote :: (bs.flatMap quoteByte ++ doubleQuote :: rest) := by
    simp [quoteBytes]
  rw [htext]
  exact bind_eq_ok.2
    ⟨_, readQuoted_quoteBytes bs rest, bind_eq_ok.2 ⟨bs, toBytes_map bs, rfl⟩⟩

/-! ### Tuples -/

/-- The text of the constant is read as the constant, and what ends it is left. -/
def ReadsBack (c : Const) : Prop :=
  ∀ fuel rest, c.chars.length ≤ fuel → Ends rest → readValue fuel (c.chars ++ rest) = .ok (c, rest)

/-- The text of a tuple with two items or more. -/
theorem charsItems_cons_cons (item next : Const) (items : List Const) :
    Const.charsItems (item :: next :: items) =
      item.chars ++ Const.charsRest (next :: items) := rfl

/-- Reading a text that holds anything has fuel to begin with. -/
theorem exists_fuel (hne : cs ≠ []) (hfuel : cs.length ≤ fuel) : ∃ n, fuel = n + 1 :=
  Nat.exists_eq_succ_of_ne_zero
    (Nat.ne_of_gt (Nat.lt_of_lt_of_le (List.length_pos_of_ne_nil hne) hfuel))

/-- The text of a writable constant begins with neither a blank nor a closing bracket. -/
theorem exists_chars_cons (h : c.Writable) :
    ∃ d cs, c.chars = d :: cs ∧ isBlank d = false ∧ d ≠ ')' := by
  cases h with
  | none | ellipsis | str | bytes | tuple => exact ⟨_, _, rfl, by decide, by decide⟩
  | bool b => cases b <;> exact ⟨_, _, rfl, by decide, by decide⟩
  | int v =>
    obtain ⟨d, cs, hcs⟩ := List.exists_cons_of_ne_nil (ofInt_ne_nil v.toInt)
    obtain ⟨hblank, hclose⟩ := forall_mem_ofInt (P := fun d => isBlank d = false ∧ d ≠ ')')
      (forall_mem_of_all (by decide)) v.toInt d (hcs ▸ List.mem_cons_self)
    exact ⟨d, cs, hcs, hblank, hclose⟩

/-- In a tuple, an item is read first. -/
theorem readItems_succ (hitem : item.Writable) (hcs : skipBlanks cs = item.chars ++ rest)
    (hread : readValue fuel (item.chars ++ rest) = .ok (item, rest)) :
    readItems (fuel + 1) cs =
      match skipBlanks rest with
      | ',' :: rest => do
        let (items, rest) ← readItems fuel rest
        return (item :: items, rest)
      | ')' :: rest => return ([item], rest)
      | _ => throw .unterminatedTuple := by
  obtain ⟨d, ds, hchars, -, hclose⟩ := exists_chars_cons hitem
  rw [readItems, hcs]
  split
  · rename_i h
    rw [hchars] at h
    exact absurd (List.cons.inj h).1 hclose
  · rw [hread]
    rfl

/-- Behind an item and a comma the reader goes on with further items. -/
theorem readItems_comma (hitem : item.Writable) (hcs : skipBlanks cs = item.chars ++ ',' :: rest)
    (hread : readValue fuel (item.chars ++ ',' :: rest) = .ok (item, ',' :: rest)) :
    readItems (fuel + 1) cs = (fun r => (item :: r.1, r.2)) <$> readItems fuel rest :=
  readItems_succ hitem hcs hread

/-- Behind the last item the reader comes to the closing parenthesis. -/
theorem readItems_close (hitem : item.Writable) (hcs : skipBlanks cs = item.chars ++ ')' :: rest)
    (hread : readValue fuel (item.chars ++ ')' :: rest) = .ok (item, ')' :: rest)) :
    readItems (fuel + 1) cs = .ok ([item], rest) :=
  readItems_succ hitem hcs hread

/-- A word ends at a character that no word contains. -/
theorem ends_cons (h : inWord d = false) : Ends (d :: rest) := by
  intro e he
  cases he
  exact h

/-- There are no blanks in front of a writable constant. -/
theorem skipBlanks_chars (hitem : item.Writable) :
    skipBlanks (item.chars ++ rest) = item.chars ++ rest := by
  obtain ⟨d, ds, hchars, hblank, -⟩ := exists_chars_cons hitem
  rw [hchars]
  exact skipBlanks_cons hblank

/-- The items of a tuple are read one by one, up to its closing bracket. -/
theorem readItems_chars (hwritable : ∀ i ∈ item :: items, i.Writable)
    (hread : ∀ i ∈ item :: items, ReadsBack i)
    (hfuel : (item.chars ++ Const.charsRest items).length ≤ fuel)
    (hcs : skipBlanks cs = item.chars ++ (Const.charsRest items ++ rest)) :
    readItems fuel cs = .ok (item :: items, rest) := by
  induction items generalizing item cs fuel with
  | nil =>
    obtain ⟨fuel, rfl⟩ := exists_fuel (by simp [Const.charsRest]) hfuel
    have hitem : item.chars.length ≤ fuel := by
      simp [Const.charsRest] at hfuel
      omega
    exact readItems_close (hwritable _ List.mem_cons_self) hcs
      (hread _ List.mem_cons_self fuel _ hitem (ends_cons (by decide)))
  | cons next items ih =>
    obtain ⟨fuel, rfl⟩ := exists_fuel (by simp [Const.charsRest]) hfuel
    have hlen : item.chars.length ≤ fuel ∧
        (next.chars ++ Const.charsRest items).length ≤ fuel := by
      simp [Const.charsRest] at hfuel ⊢
      omega
    -- The comma ends the item; the blank behind it is skipped before the next one.
    obtain ⟨hitem, hnext⟩ := List.forall_mem_cons.1 hwritable
    obtain ⟨hreads, hreadsNext⟩ := List.forall_mem_cons.1 hread
    have hrest : readItems fuel (' ' :: (next.chars ++ (Const.charsRest items ++ rest))) =
        .ok (next :: items, rest) :=
      ih hnext hreadsNext hlen.2 (skipBlanks_chars (hnext next List.mem_cons_self))
    have hcomma : skipBlanks cs =
        item.chars ++ ',' :: ' ' :: (next.chars ++ (Const.charsRest items ++ rest)) := by
      simpa [Const.charsRest] using hcs
    rw [readItems_comma hitem hcomma (hreads fuel _ hlen.1 (ends_cons (by decide))), hrest]
    rfl

/-- A tuple is read when its items are. -/
theorem readsBack_tuple (hwritable : ∀ i ∈ items, i.Writable)
    (hread : ∀ i ∈ items, ReadsBack i) : ReadsBack (.tuple items) := by
  intro fuel rest hfuel hrest
  -- The opening bracket takes one turn, which leaves enough of them for the items.
  obtain ⟨fuel, rfl⟩ := exists_fuel (List.cons_ne_nil _ _) hfuel
  have hlen : (Const.charsItems items).length ≤ fuel := Nat.le_of_succ_le_succ hfuel
  have hitems : readItems fuel (Const.charsItems items ++ rest) = .ok (items, rest) := by
    match items with
    | [] =>
      obtain ⟨fuel, rfl⟩ := exists_fuel (List.cons_ne_nil _ _) hlen
      rfl
    | [item] =>
      -- Behind the comma of a single item, a list without items is read.
      have hitem := hwritable item List.mem_cons_self
      rw [Const.charsItems, List.length_append] at hlen
      obtain ⟨fuel, rfl⟩ : ∃ n, fuel = n + 2 :=
        Nat.exists_eq_add_of_le' (Nat.le_trans (Nat.le_add_left 2 _) hlen)
      have hcomma := hread item List.mem_cons_self (fuel + 1) (',' :: ')' :: rest)
        (by simp at hlen; omega) (ends_cons (by decide))
      rw [Const.charsItems, List.append_assoc]
      exact readItems_comma hitem (skipBlanks_chars hitem) hcomma
    | item :: next :: items =>
      have hcs : skipBlanks (item.chars ++ (Const.charsRest (next :: items) ++ rest)) = _ :=
        skipBlanks_chars (hwritable item List.mem_cons_self)
      rw [charsItems_cons_cons] at hlen ⊢
      rw [List.append_assoc]
      exact readItems_chars hwritable hread hlen hcs
  exact bind_eq_ok.2 ⟨(items, rest), hitems, rfl⟩

/-- A constant is read back when its text is a word that stands for it. -/
theorem readsBack_word (h : c.isWord = true) (hne : c.chars ≠ [])
    (hvalue : ofWord c.chars = .ok c) : ReadsBack c := by
  intro fuel rest hfuel hrest
  obtain ⟨fuel, rfl⟩ := exists_fuel hne hfuel
  exact readValue_word hne (mem_wordChars h) hvalue hrest

/-- **Reading back.** The text of a writable constant is read as the constant, up to what ends
    it. -/
theorem readsBack_of_writable (h : c.Writable) : ReadsBack c := by
  induction h with
  | none | ellipsis => exact readsBack_word rfl (List.cons_ne_nil _ _) rfl
  | bool b => cases b <;> exact readsBack_word rfl (List.cons_ne_nil _ _) rfl
  | int v => exact readsBack_word rfl (ofInt_ne_nil _) (ofWord_ofInt v)
  | str hs =>
    intro fuel rest hfuel _
    obtain ⟨fuel, rfl⟩ := exists_fuel (List.cons_ne_nil _ _) hfuel
    exact readValue_quote hs rest
  | bytes bs =>
    intro fuel rest hfuel _
    obtain ⟨fuel, rfl⟩ := exists_fuel (List.cons_ne_nil _ _) hfuel
    exact readValue_quoteBytes bs rest
  | tuple hitems ih => exact readsBack_tuple hitems ih

/-- The text of a writable constant denotes it. -/
theorem readChars?_chars (h : c.Writable) : readChars? c.chars = .ok c := by
  have hread := readsBack_of_writable h (2 * c.chars.length + 2) [] (by omega) nofun
  rw [List.append_nil] at hread
  rw [readChars?, hread]
  rfl

end Literal

end StackCode

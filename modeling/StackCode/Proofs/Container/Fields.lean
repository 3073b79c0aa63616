import StackCode.Proofs.Container.Reading

namespace StackCode

/-!
# Fields in sequence

Fields of any kinds are read back in the order in which they were written.  Bytes whose end is
missing are read up to the first field that is not whole.

* `Field.Short`, `Field.pieces` — the fields that have bytes, and these bytes in the pieces in
  which they are read.
* `Input.BreaksOff` — an input ends within a piece; `Input.exists_breaksOff` finds that piece.
* `Reader.StopsWithin` — a reader fails at the piece in which its input breaks off.
* `FieldKind.read_iff`, `FieldKind.stopsWithin` — the readers of all kinds of fields.
* `readFields_of_short` — what is written is read back, and nothing less than it.
-/

/-! ### Fields and their bytes -/

namespace Field

/-- The content of a blob or a text has a length that four bytes can hold. -/
def Short : Field → Prop
  | blob bytes => bytes.length < UInt32.size
  | text s => (Bytes.ofText s).length < UInt32.size
  | _ => True

/-- Whether a field is short enough to be written can be tested. -/
instance (f : Field) : Decidable f.Short :=
  match f with
  | blob bytes => inferInstanceAs (Decidable (bytes.length < UInt32.size))
  | text s => inferInstanceAs (Decidable ((Bytes.ofText s).length < UInt32.size))
  | u8 _ | u16 _ | u32 _ | i64 _ | f64 _ | tag _ | raw _ => .isTrue trivial

/-- The bytes of a field in the pieces in which they are read.  Only the length of a blob or a
    text is read apart from what follows it. -/
def pieces : Field → List (List UInt8)
  | u8 v => [Bytes.ofNat 1 v.toNat]
  | u16 v => [Bytes.ofNat 2 v.toNat]
  | u32 v => [Bytes.ofNat 4 v.toNat]
  | i64 v => [Bytes.ofNat 8 v.toUInt64.toNat]
  | f64 x => [Bytes.ofNat 8 x.bits.toNat]
  | tag s => [s.tag]
  | raw bytes => [bytes]
  | blob bytes => [Bytes.ofNat 4 bytes.length, bytes]
  | text s => [Bytes.ofNat 4 (Bytes.ofText s).length, Bytes.ofText s]

/-- **Writing.** A field is written when it is short enough, as its pieces in a row. -/
theorem write?_eq_ok {f : Field} {bytes : List UInt8} :
    f.write? = .ok bytes ↔ f.Short ∧ bytes = f.pieces.flatten := by
  cases f with
  | blob | text => simp [write?, Short, pieces, blob?_eq_ok]
  | _ => simp [write?, Short, pieces, eq_comm]

end Field

/-- Fields have bytes when each of them has. -/
theorem writeFields?_eq_ok {fields : List Field} {bytes : List UInt8} :
    writeFields? fields = .ok bytes ↔
      (∀ f ∈ fields, f.Short) ∧ bytes = (fields.flatMap Field.pieces).flatten := by
  induction fields generalizing bytes with
  | nil => simp [writeFields?, eq_comm]
  | cons f fs ih =>
    rw [writeFields?_cons, andThen_eq_ok]
    simp only [Field.write?_eq_ok, ih, List.forall_mem_cons, List.flatMap_cons,
      List.flatten_append]
    constructor
    · rintro ⟨_, _, ⟨hf, rfl⟩, ⟨hfs, rfl⟩, rfl⟩
      exact ⟨⟨hf, hfs⟩, rfl⟩
    · rintro ⟨⟨hf, hfs⟩, rfl⟩
      exact ⟨_, _, ⟨hf, rfl⟩, ⟨hfs, rfl⟩, rfl⟩

/-! ### Inputs that break off -/

namespace Input

/-- `s` ends within the pieces: `piece` is the first of them that is not whole, and `t` is what is
    left of the input where it begins. -/
inductive BreaksOff : Input → List (List UInt8) → List UInt8 → Input → Prop where
  /-- The first piece is not whole. -/
  | here {s : Input} {piece : List UInt8} {more : List (List UInt8)} :
    s.rest <+: piece → s.rest.length < piece.length → BreaksOff s (piece :: more) piece s
  /-- The first piece is whole, and a later one is not. -/
  | later {s s' t : Input} {first piece : List UInt8} {more : List (List UInt8)} :
    s.Leaves first s' → BreaksOff s' more piece t → BreaksOff s (first :: more) piece t

variable {s t : Input} {piece first : List UInt8} {pieces more : List (List UInt8)}

/-- An input does not break off within no pieces. -/
@[simp] theorem not_breaksOff_nil : ¬ s.BreaksOff [] piece t := nofun

/-- An input breaks off within the first piece, of which it has a part only, or leaves that and
    breaks off within the others. -/
theorem breaksOff_cons :
    s.BreaksOff (first :: more) piece t ↔
      (s.rest <+: first ∧ s.rest.length < first.length ∧ piece = first ∧ t = s) ∨
        ∃ s', s.Leaves first s' ∧ s'.BreaksOff more piece t := by
  constructor
  · intro h
    cases h with
    | here hbegin hshort => exact .inl ⟨hbegin, hshort, rfl, rfl⟩
    | later hfirst hmore => exact .inr ⟨_, hfirst, hmore⟩
  · rintro (⟨hbegin, hshort, rfl, rfl⟩ | ⟨s', hfirst, hmore⟩)
    · exact .here hbegin hshort
    · exact .later hfirst hmore

/-- An input breaks off in the first pieces, or they are whole and it breaks off in the others. -/
theorem breaksOff_append :
    s.BreaksOff (pieces ++ more) piece t ↔
      s.BreaksOff pieces piece t ∨
        ∃ s', s.Leaves pieces.flatten s' ∧ s'.BreaksOff more piece t := by
  induction pieces generalizing s with
  | nil => simp [leaves_nil]
  | cons first pieces ih =>
    simp only [List.cons_append, List.flatten_cons, breaksOff_cons, ih, leaves_append]
    grind

/-- **Truncation.** An input that begins like the pieces and lacks their end breaks off in one of
    them. -/
theorem exists_breaksOff (hbegin : s.rest <+: pieces.flatten) (hne : s.rest ≠ pieces.flatten) :
    ∃ piece t, s.BreaksOff pieces piece t := by
  induction pieces generalizing s with
  | nil => exact absurd (List.prefix_nil.1 hbegin) hne
  | cons first pieces ih =>
    rw [List.flatten_cons] at hbegin hne
    have hfirst : first <+: first ++ pieces.flatten := List.prefix_append ..
    by_cases hshort : s.rest.length < first.length
    · have hrest := List.prefix_of_prefix_length_le hbegin hfirst (Nat.le_of_lt hshort)
      exact ⟨first, s, .here hrest hshort⟩
    · -- The first piece is whole, and what is left behind it lacks the end of the others.
      have hwhole := List.prefix_of_prefix_length_le hfirst hbegin (Nat.not_lt.1 hshort)
      obtain ⟨rest, hrest⟩ := hwhole
      rw [← hrest] at hbegin hne
      have hbegin' : rest <+: pieces.flatten := (List.prefix_append_right_inj first).1 hbegin
      have hne' : rest ≠ pieces.flatten := fun heq => hne (by rw [heq])
      obtain ⟨piece, t, hmore⟩ := ih (s := ⟨rest, s.offset + first.length⟩) hbegin' hne'
      exact ⟨piece, t, .later ⟨hrest.symm, rfl⟩ hmore⟩

end Input

/-! ### Readers of inputs that break off -/

namespace Reader

variable {α β : Type} {r : Reader α} {pieces more : List (List UInt8)}

/-- Where an input breaks off within the pieces, `r` fails at the piece that is not whole: it asks
    for all bytes of that piece and stays where the piece begins. -/
def StopsWithin (r : Reader α) (pieces : List (List UInt8)) : Prop :=
  ∀ s piece t, s.BreaksOff pieces piece t →
    r.run s = .error (.unexpectedEof piece.length t.offset) t

/-- Taking bytes stops within one piece. -/
theorem stopsWithin_take {n : Nat} {bytes : List UInt8} (h : bytes.length = n) :
    StopsWithin (take n) [bytes] := by
  intro s piece t hbreaks
  cases hbreaks with
  | later _ hmore => exact absurd hmore Input.not_breaksOff_nil
  | here _ hshort => rw [run_take_eq, ← h, if_pos hshort]

/-- What follows a reader that fails is not run. -/
theorem StopsWithin.bind_left (h : StopsWithin r pieces) (f : α → Reader β) :
    StopsWithin (r >>= f) pieces := by
  intro s piece t hbreaks
  rw [EStateM.run_bind, h s piece t hbreaks]

/-- A reader that reads all of its pieces hands the input on to the next one. -/
theorem StopsWithin.bind {a : α} {f : α → Reader β} (h : StopsWithin r pieces)
    (hread : ∀ s s', s.Leaves pieces.flatten s' → r.run s = .ok a s')
    (hf : StopsWithin (f a) more) : StopsWithin (r >>= f) (pieces ++ more) := by
  intro s piece t hbreaks
  rcases Input.breaksOff_append.1 hbreaks with hfirst | ⟨s', hleaves, hmore⟩
  · exact h.bind_left f s piece t hfirst
  · rw [EStateM.run_bind, hread s s' hleaves]
    exact hf s' piece t hmore

/-- Converting the result does not change where a reader stops. -/
theorem StopsWithin.map (h : StopsWithin r pieces) (g : α → β) : StopsWithin (g <$> r) pieces := by
  rw [map_eq_pure_bind]
  exact h.bind_left _

/-! ### The readers of fields -/

/-- A number stops within its bytes. -/
theorem stopsWithin_number (width n : Nat) :
    StopsWithin (number width) [Bytes.ofNat width n] :=
  (stopsWithin_take (Bytes.length_ofNat width n)).bind_left _

/-- A tag stops within its four bytes. -/
theorem stopsWithin_tag (s : Section) : StopsWithin tag [s.tag] :=
  (stopsWithin_take (Section.length_tag s)).bind_left _

/-- A blob breaks off in its length or in what follows it. -/
theorem stopsWithin_blob {content : List UInt8} (h : content.length < UInt32.size) :
    StopsWithin blob [Bytes.ofNat 4 content.length, content] := by
  refine (stopsWithin_number 4 content.length).bind ?_ (stopsWithin_take rfl)
  intro s s' hleaves
  rw [List.flatten_singleton] at hleaves
  exact run_number.2 ⟨h, hleaves⟩

end Reader

namespace FieldKind

open Reader

/-- A field is read where an input begins with what is written for it, and nowhere else. -/
theorem read_iff {f : Field} {s s' : Input} :
    f.kind.read.run s = .ok f s' ↔ s.Begins f.write? s' := by
  cases f with
  | u8 v => exact inverts_u8.run_map fun _ _ => Field.u8.inj
  | u16 v => exact inverts_u16.run_map fun _ _ => Field.u16.inj
  | u32 v => exact inverts_u32.run_map fun _ _ => Field.u32.inj
  | i64 v => exact inverts_i64.run_map fun _ _ => Field.i64.inj
  | f64 x => exact inverts_f64.run_map fun _ _ => Field.f64.inj
  | tag t => exact inverts_tag.run_map fun _ _ => Field.tag.inj
  | raw bytes =>
    show (Field.raw <$> take bytes.length).run s = _ ↔ s.Begins (.ok bytes) s'
    rw [run_map_eq_ok]
    simp [run_take]
  | blob bytes => exact inverts_blob.run_map fun _ _ => Field.blob.inj
  | text v => exact inverts_text.run_map fun _ _ => Field.text.inj

/-- **Short inputs.** A reader of one kind of field stops within the pieces of every field of this
    kind. -/
theorem stopsWithin {f : Field} (h : f.Short) : StopsWithin f.kind.read f.pieces := by
  cases f with
  | u8 v => exact ((stopsWithin_number 1 _).bind_left _).map _
  | u16 v => exact ((stopsWithin_number 2 _).bind_left _).map _
  | u32 v => exact ((stopsWithin_number 4 _).bind_left _).map _
  | i64 v => exact ((stopsWithin_number 8 _).bind_left _).map _
  | f64 x => exact ((stopsWithin_number 8 _).bind_left _).map _
  | tag s => exact (stopsWithin_tag s).map _
  | raw bytes => exact (stopsWithin_take rfl).map _
  | blob bytes => exact (stopsWithin_blob h).map _
  | text v => exact ((stopsWithin_blob h).bind_left _).map _

end FieldKind

/-! ### Fields in sequence -/

/-- Reads fields of the given kinds, one after the other. -/
def readFields (kinds : List FieldKind) : Reader (List Field) := kinds.mapM FieldKind.read

variable {fields : List Field} {s s' t : Input} {piece : List UInt8}

/-- **Reading in sequence.** Fields are read off an input that begins with their bytes. -/
theorem run_readFields :
    (readFields (fields.map Field.kind)).run s = .ok fields s' ↔
      s.Begins (writeFields? fields) s' := by
  induction fields generalizing s with
  | nil =>
    show (pure [] : Reader _).run s = _ ↔ s.Begins (.ok []) s'
    simp [Input.leaves_nil, eq_comm]
  | cons f fs ih =>
    unfold readFields at ih ⊢
    rw [List.map_cons, run_mapM_cons_eq_ok, writeFields?_cons, Input.begins_andThen]
    constructor
    · rintro ⟨_, t, _, hf, hfs, heq⟩
      obtain ⟨rfl, rfl⟩ := List.cons.inj heq
      exact ⟨t, FieldKind.read_iff.1 hf, ih.1 hfs⟩
    · rintro ⟨t, hf, hfs⟩
      exact ⟨f, t, fs, FieldKind.read_iff.2 hf, ih.2 hfs, rfl⟩

/-- An input breaks off in a field behind others that are whole and are read. -/
theorem exists_broken_field (h : ∀ f ∈ fields, f.Short)
    (hbreaks : s.BreaksOff (fields.flatMap Field.pieces) piece t) :
    ∃ before f after s', fields = before ++ f :: after ∧
      (readFields (before.map Field.kind)).run s = .ok before s' ∧
      s'.BreaksOff f.pieces piece t := by
  induction fields generalizing s with
  | nil => exact absurd hbreaks Input.not_breaksOff_nil
  | cons f fs ih =>
    obtain ⟨hf, hfs⟩ := List.forall_mem_cons.1 h
    rw [List.flatMap_cons] at hbreaks
    rcases Input.breaksOff_append.1 hbreaks with hfirst | ⟨s', hleaves, hmore⟩
    · exact ⟨[], f, fs, s, rfl, rfl, hfirst⟩
    · obtain ⟨before, g, after, t', rfl, hread, hg⟩ := ih hfs hmore
      have hhead : f.kind.read.run s = .ok f s' :=
        FieldKind.read_iff.2 ⟨_, Field.write?_eq_ok.2 ⟨hf, rfl⟩, hleaves⟩
      refine ⟨f :: before, g, after, t', rfl, ?_, hg⟩
      exact run_mapM_cons_eq_ok.2 ⟨f, s', before, hhead, hread, rfl⟩

/-- **Fields.** Fields are read back from their bytes, whatever follows these, and the reader then
    stands behind them.  Where the end of the bytes is missing, the fields before the one that is
    not whole are read back, and the first read to fail is that of this one: it asks for the piece
    in which the bytes break off. -/
theorem readFields_of_short (h : ∀ f ∈ fields, f.Short) :
    ∃ written, writeFields? fields = .ok written ∧
      (∀ trailing, (readFields (fields.map Field.kind)).run { rest := written ++ trailing } =
        .ok fields { rest := trailing, offset := written.length }) ∧
      ∀ cut, cut <+: written → cut ≠ written →
        ∃ before f after s piece t, fields = before ++ f :: after ∧
          (readFields (before.map Field.kind)).run { rest := cut } = .ok before s ∧
          s.BreaksOff f.pieces piece t ∧
          f.kind.read.run s = .error (.unexpectedEof piece.length t.offset) t := by
  have hwritten := writeFields?_eq_ok.2 ⟨h, rfl⟩
  refine ⟨_, hwritten, ?_, ?_⟩
  · intro trailing
    exact run_readFields.2 ⟨_, hwritten, rfl, (Nat.zero_add _).symm⟩
  · intro cut hbegin hne
    obtain ⟨piece, t, hbreaks⟩ := Input.exists_breaksOff (s := { rest := cut }) hbegin hne
    obtain ⟨before, f, after, s, hfields, hread, hf⟩ := exists_broken_field h hbreaks
    have hshort : f.Short := h f (by rw [hfields]; simp)
    exact ⟨before, f, after, s, piece, t, hfields, hread, hf,
      FieldKind.stopsWithin hshort s piece t hf⟩

/-- A text between a number and a tag. -/
def greeting : List Field := [.u16 0xBEEF, .text "héllo", .tag .code]

/-- The greeting up to the middle of its second letter. -/
theorem readFields_of_short_greeting :
    (∀ f ∈ greeting, f.Short) ∧ ∃ written, writeFields? greeting = .ok written ∧
      (readFields (greeting.map Field.kind)).run { rest := written ++ [0, 255] } =
        .ok greeting { rest := [0, 255], offset := written.length } ∧
      written.take 8 <+: written ∧ written.take 8 ≠ written ∧
        ∃ before f after s piece t, greeting = before ++ f :: after ∧
          (readFields (before.map Field.kind)).run { rest := written.take 8 } = .ok before s ∧
          s.BreaksOff f.pieces piece t ∧
          f.kind.read.run s = .error (.unexpectedEof piece.length t.offset) t := by
  have hshort : ∀ f ∈ greeting, f.Short := by decide +kernel
  obtain ⟨written, hwritten, hread, hcut⟩ := readFields_of_short hshort
  have hlen : written.length = 16 := by
    obtain ⟨-, rfl⟩ := writeFields?_eq_ok.1 hwritten
    decide +kernel
  have hne : written.take 8 ≠ written := by
    intro heq
    have hlen' := congrArg List.length heq
    rw [List.length_take, hlen] at hlen'
    omega
  have hbegin := List.take_prefix 8 written
  exact ⟨hshort, written, hwritten, hread [0, 255], hbegin, hne, hcut _ hbegin hne⟩

-- A text that ends in the middle of a letter lacks its end and is not ill-formed.
example : FieldKind.text.read.run { rest := [6, 0, 0, 0, 0x68, 0xC3], offset := 2 } =
    .error (.unexpectedEof 6 6) { rest := [0x68, 0xC3], offset := 6 } := rfl

end StackCode

import StackCode.Container
import StackCode.Proofs.Container.Reading

namespace StackCode

/-!
# Sections of a unit

A unit holds constants, and constants hold units.  To break the circle, the sections of a unit are
described around given bytes for its constants, and with any reader for them.

* `Reader.ReadsToEnd` — a reader reads an input to its end.
* `Reader.run_inSection`, `Reader.run_counted` — sections and counted items.
* `StoredUnit.frame?` — the sections of a unit, around what is written for its constants.
* `StoredUnit.write?_eq`, `StoredUnit.run_readWith` — the sections of a unit are written and read
  alike, whatever stands for the constants.
-/

/-! ### Sections as bytes -/

/-- A section is its tag and a blob. -/
theorem sectionBytes_eq (tag : Section) (content : List UInt8) :
    (section? tag content) = andThen (.ok tag.tag) (blob? content) := rfl

/-- A section is written when its content has a 32-bit length. -/
theorem section?_eq_ok {tag : Section} {content bytes : List UInt8} :
    (section? tag content) = .ok bytes ↔
      content.length < UInt32.size ∧
        bytes = tag.tag ++ (Bytes.ofNat 4 content.length ++ content) := by
  rw [sectionBytes_eq, andThen_eq_ok]
  simp only [blob?_eq_ok]
  constructor
  · rintro ⟨_, _, htag, ⟨hlt, rfl⟩, rfl⟩
    cases htag
    exact ⟨hlt, rfl⟩
  · rintro ⟨hlt, rfl⟩
    exact ⟨_, _, rfl, ⟨hlt, rfl⟩, rfl⟩

namespace Reader

variable {α β : Type} {s s' : Input} {r : Reader α} {w : α → Except FormatError (List UInt8)}

/-! ### Guards -/

/-- A reader behind a check runs when the check passes. -/
theorem run_guard {p : Prop} [Decidable p] {e : FormatError} {a : α} :
    (do
      if p then throw e
      r : Reader α).run s = .ok a s' ↔ ¬ p ∧ r.run s = .ok a s' := by
  split
  · rename_i hp
    exact ⟨nofun, fun h => absurd hp h.1⟩
  · rename_i hp
    exact ⟨fun h => ⟨hp, h⟩, And.right⟩

/-! ### Reading to the end -/

/-- `r` reads `s` to its end, with the result `a`. -/
def ReadsToEnd (r : Reader α) (s : Input) (a : α) : Prop := ∃ t, r.run s = .ok a t ∧ t.rest = []

/-- A reader that reads between places of the input also says what it reads up to the end. -/
theorem readsToEnd_iff {p : Prop} {x : Except FormatError (List UInt8)} {a : α}
    (h : ∀ s', r.run s = .ok a s' ↔ p ∧ s.Begins x s') :
    ReadsToEnd r s a ↔ p ∧ x = .ok s.rest := by
  rw [← Input.begins_to_end, ReadsToEnd]
  simp only [h]
  grind

/-- What is read as it is written is read up to the end when it is all that is left. -/
theorem Inverts.readsToEnd (h : Inverts r w) {a : α} : ReadsToEnd r s a ↔ w a = .ok s.rest := by
  unfold ReadsToEnd
  simp only [h s a, Input.begins_to_end]

/-- A reader runs within given bytes without moving the input. -/
theorem run_within {content : List UInt8} {a : α} :
    (within content r).run s = .ok a s' ↔ s' = s ∧ ∃ t, r.run { rest := content } = .ok a t := by
  unfold within
  cases r.run { rest := content } with
  | ok a' t => simp [eq_comm, and_comm]
  | error e t => exact ⟨nofun, fun ⟨_, _, h⟩ => by cases h⟩

/-- The end of a reader that fails on what is left. -/
theorem run_end {e : Nat → FormatError} {x y : β} :
    (do
      let left ← remaining
      if left ≠ 0 then throw (e left)
      return x : Reader β).run s = .ok y s' ↔ s' = s ∧ s.rest = [] ∧ x = y := by
  show (do
    if s.rest.length ≠ 0 then throw (e s.rest.length)
    return x : Reader β).run s = .ok y s' ↔ _
  rw [run_guard, not_not, List.length_eq_zero_iff, run_pure_eq_ok]
  grind

/-! ### Counted items -/

/-- A reader that is repeated has as many results as it is repeated. -/
theorem length_of_times {k : Nat} {xs : List α} (h : (times r k).run s = .ok xs s') :
    xs.length = k := by
  induction k generalizing s s' xs with
  | zero =>
    obtain ⟨rfl, -⟩ := run_pure_eq_ok.1 h
    rfl
  | succ k ih =>
    obtain ⟨x, t, -, h⟩ := run_bind_eq_ok.1 h
    obtain ⟨rest, t', hrest, h⟩ := run_bind_eq_ok.1 h
    obtain ⟨rfl, -⟩ := run_pure_eq_ok.1 h
    rw [List.length_cons, ih hrest]

/-- **Tables.** A counted list is its number, and then its items. -/
theorem run_counted {xs : List α} :
    (counted r).run s = .ok xs s' ↔
      ∃ t, s.Begins (count? xs.length) t ∧ (times r xs.length).run t = .ok xs s' := by
  unfold counted
  rw [inverts_u32.run_bind]
  constructor
  · rintro ⟨n, t, ⟨_, hn, hleaves⟩, h⟩
    cases hn
    have hlen : xs.length = n.toNat := length_of_times h
    refine ⟨t, ⟨_, count?_eq_ok.2 ⟨?_, rfl⟩, ?_⟩, by rwa [hlen]⟩
    · rw [hlen]
      exact n.toNat_lt
    · rwa [hlen]
  · rintro ⟨t, ⟨_, hcount, hleaves⟩, h⟩
    obtain ⟨hlt, rfl⟩ := count?_eq_ok.1 hcount
    have hn : (UInt32.ofNat xs.length).toNat = xs.length := UInt32.toNat_ofNat_of_lt' hlt
    refine ⟨UInt32.ofNat xs.length, t, ?_, by rwa [hn]⟩
    show s.Begins (.ok (Bytes.ofNat 4 (UInt32.ofNat xs.length).toNat)) t
    rwa [hn, Input.begins_ok]

/-- Texts in a row are read as they are written. -/
theorem run_times_text {xs : List String} :
    (times text xs.length).run s = .ok xs s' ↔ s.Begins (writeFields? (xs.map .text)) s' := by
  induction xs generalizing s with
  | nil =>
    show (pure [] : Reader _).run s = _ ↔ s.Begins (.ok []) s'
    rw [run_pure_eq_ok, Input.begins_ok, Input.leaves_nil]
    simp [eq_comm]
  | cons x xs ih =>
    show (do let x ← text; let xs ← times text xs.length; return x :: xs).run s = _ ↔ _
    rw [inverts_text.run_bind, List.map_cons, writeFields?_cons, Input.begins_andThen]
    simp only [run_bind_eq_ok, run_pure_eq_ok, List.cons.injEq]
    constructor
    · rintro ⟨_, t, hx, _, _, hxs, ⟨rfl, rfl⟩, rfl⟩
      exact ⟨t, hx, ih.1 hxs⟩
    · rintro ⟨t, hx, hxs⟩
      exact ⟨x, t, hx, xs, s', ih.2 hxs, ⟨rfl, rfl⟩, rfl⟩

/-- Tables of texts are read as they are written. -/
theorem inverts_texts : Inverts (counted text) texts? := by
  intro s xs s'
  show _ ↔ s.Begins (andThen (count? xs.length) (writeFields? (xs.map .text))) s'
  rw [run_counted, Input.begins_andThen]
  simp only [run_times_text]

/-! ### Sections -/

/-- Sections are read as they are written. -/
theorem inverts_section (tag : Section) : Inverts (Reader.section tag) (section? tag) := by
  intro s content s'
  unfold Reader.section
  rw [inverts_tag.run_bind, sectionBytes_eq, Input.begins_andThen]
  simp only [run_guard, inverts_blob _ _ _, not_not]
  constructor
  · rintro ⟨_, t, htag, rfl, hblob⟩
    exact ⟨t, htag, hblob⟩
  · rintro ⟨t, htag, hblob⟩
    exact ⟨tag, t, htag, rfl, hblob⟩

/-- A section behind its content. -/
theorem begins_section {tag : Section} {x : Except FormatError (List UInt8)} :
    s.Begins (x >>= section? tag) s' ↔
      ∃ content, x = .ok content ∧ s.Begins (section? tag content) s' := by
  simp only [Input.Begins, bind_eq_ok]
  grind

/-- A reader within a section has to come to the end of its content. -/
theorem run_inSection {tag : Section} {a : α} :
    (inSection tag r).run s = .ok a s' ↔
      ∃ content, s.Begins (section? tag content) s' ∧ ReadsToEnd r ⟨content, 0⟩ a := by
  unfold inSection
  rw [(inverts_section tag).run_bind]
  refine exists_congr fun content => ?_
  simp only [run_within, run_bind_eq_ok (x := r), run_end]
  constructor
  · rintro ⟨t, hbegins, rfl, _, x, t', hrun, rfl, hend, rfl⟩
    exact ⟨hbegins, _, hrun, hend⟩
  · rintro ⟨hbegins, t', hrun, hend⟩
    exact ⟨s', hbegins, rfl, t', a, t', hrun, rfl, hend, rfl⟩

/-- What is read as it is written is also read so within a section. -/
theorem Inverts.inSection (h : Inverts r w) (tag : Section) :
    Inverts (inSection tag r) fun a => w a >>= section? tag := by
  intro s a s'
  simp only [run_inSection, begins_section, h.readsToEnd, and_comm]

/-- Reads the header of a unit. -/
def header : Reader StoredUnit := do
  let argcount ← u32
  let kwonlyargcount ← u32
  let nlocals ← u32
  let stacksize ← u32
  let flags ← u32
  let firstlineno ← u32
  let name ← text
  let filename ← text
  let unit : StoredUnit := {
    argcount := argcount, kwonlyargcount, nlocals, stacksize
    flags, firstlineno, name, filename }
  return unit

end Reader

namespace StoredUnit

variable {unit : StoredUnit} {items bytes : List UInt8} {s s' : Input}

/-! ### The header of a unit -/

/-- The unit with nothing but its header. -/
def header (unit : StoredUnit) : StoredUnit where
  argcount := unit.argcount
  kwonlyargcount := unit.kwonlyargcount
  nlocals := unit.nlocals
  stacksize := unit.stacksize
  flags := unit.flags
  firstlineno := unit.firstlineno
  name := unit.name
  filename := unit.filename

/-- The bytes of the header. -/
def writeHeader? (unit : StoredUnit) : Except FormatError (List UInt8) :=
  writeFields? [.u32 unit.argcount, .u32 unit.kwonlyargcount, .u32 unit.nlocals,
    .u32 unit.stacksize, .u32 unit.flags, .u32 unit.firstlineno, .text unit.name,
    .text unit.filename]

/-- The header of a unit is read as it is written. -/
theorem run_header :
    Reader.header.run s = .ok unit s' ↔ unit = unit.header ∧ s.Begins unit.writeHeader? s' := by
  unfold Reader.header writeHeader?
  simp only [Reader.inverts_u32.run_bind, Reader.inverts_text.run_bind, run_pure_eq_ok,
    writeFields?_cons, Input.begins_andThen]
  constructor
  · rintro ⟨_, t₁, h₁, _, t₂, h₂, _, t₃, h₃, _, t₄, h₄, _, t₅, h₅, _, t₆, h₆, _, t₇, h₇, _, t₈, h₈,
      rfl, rfl⟩
    refine ⟨rfl, t₁, h₁, t₂, h₂, t₃, h₃, t₄, h₄, t₅, h₅, t₆, h₆, t₇, h₇, t₈, h₈, ?_⟩
    exact Input.begins_ok.2 (Input.leaves_nil.2 rfl)
  · rintro ⟨hunit, t₁, h₁, t₂, h₂, t₃, h₃, t₄, h₄, t₅, h₅, t₆, h₆, t₇, h₇, t₈, h₈, hend⟩
    refine ⟨_, t₁, h₁, _, t₂, h₂, _, t₃, h₃, _, t₄, h₄, _, t₅, h₅, _, t₆, h₆, _, t₇, h₇, _, t₈, h₈,
      hunit.symm, ?_⟩
    exact (Input.leaves_nil.1 (Input.begins_ok.1 hend)).symm

/-- So is the section of the header. -/
theorem run_headerSection :
    (Reader.inSection .info Reader.header).run s = .ok unit s' ↔
      unit = unit.header ∧ s.Begins (unit.writeHeader? >>= section? .info) s' := by
  rw [Reader.run_inSection, Reader.begins_section]
  simp only [Reader.readsToEnd_iff fun _ => run_header]
  grind

/-! ### The sections of a unit -/

/-- The sections of the unit, around what is written for its constants. -/
def frame? (unit : StoredUnit) (items : Except FormatError (List UInt8)) :
    Except FormatError (List UInt8) :=
  andThen (unit.writeHeader? >>= section? .info) <|
  andThen (section? .code unit.code) <|
  andThen (andThen (count? unit.consts.length) items >>= section? .consts) <|
  andThen (texts? unit.names >>= section? .names) <|
  andThen (texts? unit.varnames >>= section? .varnames) <|
  andThen (texts? unit.freevars >>= section? .freevars) <|
  andThen (texts? unit.cellvars >>= section? .cellvars) <|
  (section? .lines unit.lineTable)

/-- A unit is written as the frame around its constants. -/
theorem write?_eq : unit.write? = unit.frame? (Const.writeItems? unit.consts) := by
  obtain ⟨⟩ := unit
  unfold StoredUnit.write? frame? writeHeader? andThen
  simp only [bind_assoc, pure_bind, List.append_assoc]

/-- What stands in a frame: the bytes of the constants, and any others of the same length could
    stand in their place. -/
theorem frame?_split {written : Except FormatError (List UInt8)}
    (h : unit.frame? written = .ok bytes) :
    ∃ front items back, written = .ok items ∧ bytes = front ++ items ++ back ∧
      ∀ items' : List UInt8, items'.length = items.length →
        unit.frame? (.ok items') = .ok (front ++ items' ++ back) := by
  unfold frame? at h
  -- The constants stand in the third section, behind the header and the code.
  obtain ⟨info, _, hinfo, hrest, rfl⟩ := andThen_eq_ok.1 h
  obtain ⟨code, _, hcode, hrest', rfl⟩ := andThen_eq_ok.1 hrest
  obtain ⟨consts, back, hsection, hback, rfl⟩ := andThen_eq_ok.1 hrest'
  obtain ⟨_, hcontent, hconsts⟩ := bind_eq_ok.1 hsection
  obtain ⟨n, items, hn, hitems, rfl⟩ := andThen_eq_ok.1 hcontent
  obtain ⟨hlt, rfl⟩ := section?_eq_ok.1 hconsts
  refine ⟨info ++ (code ++ (Section.consts.tag ++ (Bytes.ofNat 4 (n ++ items).length ++ n))), items,
    back, hitems, by simp only [List.append_assoc], fun items' hlen => ?_⟩
  have hlen' : (n ++ items').length = (n ++ items).length := by
    rw [List.length_append, List.length_append, hlen]
  -- The frame depends on its constants by their length alone, which stands in front of them.
  have hconsts' : (section? .consts (n ++ items')) =
      .ok (Section.consts.tag ++ (Bytes.ofNat 4 (n ++ items).length ++ (n ++ items'))) := by
    rw [section?_eq_ok, hlen']
    exact ⟨hlt, rfl⟩
  have hcontent' : andThen (count? unit.consts.length) (.ok items') = .ok (n ++ items') :=
    andThen_eq_ok.2 ⟨n, items', hn, rfl, rfl⟩
  unfold frame?
  refine andThen_eq_ok.2 ⟨info, _, hinfo, andThen_eq_ok.2 ⟨code, _, hcode,
    andThen_eq_ok.2 ⟨_, back, bind_eq_ok.2 ⟨_, hcontent', hconsts'⟩, hback, rfl⟩, rfl⟩, ?_⟩
  simp only [List.append_assoc]

/-- The section of constants is read, with any reader of constants, when some bytes stand in it from
    which that reader gets the constants. -/
theorem run_constSection {readConst : Reader Const} {consts : List Const} :
    (Reader.inSection .consts (Reader.counted readConst)).run s = .ok consts s' ↔
      ∃ items, s.Begins (andThen (count? consts.length) (.ok items) >>= section? .consts) s' ∧
        Reader.ReadsToEnd (Reader.times readConst consts.length) ⟨items, 4⟩ consts := by
  rw [Reader.run_inSection]
  simp only [Reader.begins_section, andThen_eq_ok, Reader.ReadsToEnd, Reader.run_counted]
  constructor
  · rintro ⟨content, hbegins, t, ⟨⟨items, offset⟩, ⟨n, hn, hrest, hoffset⟩, hitems⟩, hend⟩
    obtain rfl : offset = 4 := hoffset.trans (by rw [length_of_count? hn])
    exact ⟨items, ⟨content, ⟨n, items, hn, rfl, hrest⟩, hbegins⟩, t, hitems, hend⟩
  · rintro ⟨items, ⟨_, ⟨n, _, hn, hi, rfl⟩, hbegins⟩, t, hitems, hend⟩
    cases hi
    refine ⟨_, hbegins, t, ⟨⟨items, 4⟩, ⟨n, hn, rfl, ?_⟩, hitems⟩, hend⟩
    rw [length_of_count? hn]

/-- **Units.** A unit is read, with any reader of constants, when the input begins with its frame
    around some bytes from which that reader gets its constants. -/
theorem run_readWith {readConst : Reader Const} :
    (readWith readConst).run s = .ok unit s' ↔
      ∃ items, s.Begins (unit.frame? (.ok items)) s' ∧
        Reader.ReadsToEnd (Reader.times readConst unit.consts.length) ⟨items, 4⟩ unit.consts := by
  -- The reader of the header gets its name, so that it is one step of the chain.
  show (do
    let info ← Reader.inSection .info Reader.header
    let code ← Reader.section .code
    let consts ← Reader.inSection .consts (Reader.counted readConst)
    let names ← Reader.inSection .names (Reader.counted Reader.text)
    let varnames ← Reader.inSection .varnames (Reader.counted Reader.text)
    let freevars ← Reader.inSection .freevars (Reader.counted Reader.text)
    let cellvars ← Reader.inSection .cellvars (Reader.counted Reader.text)
    let lineTable ← Reader.section .lines
    return { info with code, consts, names, varnames, freevars, cellvars, lineTable }
      : Reader StoredUnit).run s = _ ↔ _
  have htexts := Reader.inverts_texts.inSection
  simp only [run_bind_eq_ok (x := Reader.inSection .info Reader.header),
    run_bind_eq_ok (x := Reader.inSection .consts (Reader.counted readConst)),
    (Reader.inverts_section _).run_bind, (htexts _).run_bind, run_pure_eq_ok,
    run_headerSection, run_constSection, frame?, Input.begins_andThen]
  constructor
  · rintro ⟨info, t₁, ⟨hheader, h₁⟩, code, t₂, h₂, consts, t₃, ⟨items, h₃, hitems⟩, names, t₄, h₄,
      vars, t₅, h₅, free, t₆, h₆, cell, t₇, h₇, lines, t₈, h₈, rfl, rfl⟩
    exact ⟨items, ⟨t₁, h₁, t₂, h₂, t₃, h₃, t₄, h₄, t₅, h₅, t₆, h₆, t₇, h₇, h₈⟩, hitems⟩
  · rintro ⟨items, ⟨t₁, h₁, t₂, h₂, t₃, h₃, t₄, h₄, t₅, h₅, t₆, h₆, t₇, h₇, h₈⟩, hitems⟩
    refine ⟨unit.header, t₁, ⟨rfl, h₁⟩, _, t₂, h₂, _, t₃, ⟨items, h₃, hitems⟩, _, t₄, h₄, _, t₅, h₅,
      _, t₆, h₆, _, t₇, h₇, _, s', h₈, ?_, rfl⟩
    -- Units are recursive, so the fields make up the unit only by cases.
    cases unit
    rfl

/-- A unit is read up to the end when the frame is all that is left. -/
theorem readsToEnd_readWith {readConst : Reader Const} :
    Reader.ReadsToEnd (readWith readConst) s unit ↔
      ∃ items, unit.frame? (.ok items) = .ok s.rest ∧
        Reader.ReadsToEnd (Reader.times readConst unit.consts.length) ⟨items, 4⟩ unit.consts := by
  rw [Reader.ReadsToEnd]
  simp only [run_readWith, ← Input.begins_to_end]
  grind

end StoredUnit

end StackCode

import StackCode.Container.Field
import StackCode.Proofs.Fallible

namespace StackCode

/-!
# Reading what was written

Both directions of a round trip are had at once: a reader is said to read a value exactly where the
input begins with what is written for it.  The property passes from fields to sequences of fields,
so that no proof about a record goes back to single bytes.

* `Input.Begins` — an input begins with what was written, and leaves another one behind it.
* `Reader.Inverts` — a reader that reads a value where an input begins with what a writer writes
  for it, and nowhere else.
* `Reader.inverts_u8` and its successors — the readers of fields invert their writers.
-/

namespace Input

/-- `s` begins with `bytes`, and `s'` is what is left behind them. -/
def Leaves (s : Input) (bytes : List UInt8) (s' : Input) : Prop :=
  s.rest = bytes ++ s'.rest ∧ s'.offset = s.offset + bytes.length

/-- `s` begins with what was written, and `s'` is what is left behind it. -/
def Begins (s : Input) (written : Except FormatError (List UInt8)) (s' : Input) : Prop :=
  ∃ bytes, written = .ok bytes ∧ s.Leaves bytes s'

variable {s s' s'' : Input}

/-- Only what stays in place leaves no bytes behind. -/
theorem leaves_nil : s.Leaves [] s' ↔ s' = s := by
  obtain ⟨rest, offset⟩ := s
  obtain ⟨rest', offset'⟩ := s'
  simp [Leaves, eq_comm]

/-- Bytes in two parts are read by way of the input between them. -/
theorem leaves_append {x y : List UInt8} :
    s.Leaves (x ++ y) s'' ↔ ∃ s', s.Leaves x s' ∧ s'.Leaves y s'' := by
  constructor
  · rintro ⟨hrest, hoffset⟩
    refine ⟨⟨y ++ s''.rest, s.offset + x.length⟩, ⟨?_, rfl⟩, rfl, ?_⟩
    · rw [hrest, List.append_assoc]
    · rw [hoffset, List.length_append, Nat.add_assoc]
  · rintro ⟨s', ⟨hrest, hoffset⟩, hrest', hoffset'⟩
    refine ⟨?_, ?_⟩
    · rw [hrest, hrest', List.append_assoc]
    · rw [hoffset', hoffset, List.length_append, Nat.add_assoc]

/-- An input begins with bytes that were written when it leaves them behind. -/
@[simp] theorem begins_ok {bytes : List UInt8} : s.Begins (.ok bytes) s' ↔ s.Leaves bytes s' := by
  simp [Begins]

/-- An input begins with what was written and holds nothing else. -/
theorem begins_to_end {written : Except FormatError (List UInt8)} :
    (∃ t, s.Begins written t ∧ t.rest = []) ↔ written = .ok s.rest := by
  constructor
  · rintro ⟨⟨rest, offset⟩, ⟨bytes, hbytes, hrest, -⟩, hend⟩
    cases hend
    rw [hbytes, hrest, List.append_nil]
  · intro h
    refine ⟨⟨[], s.offset + s.rest.length⟩, ⟨s.rest, h, ?_, rfl⟩, rfl⟩
    rw [List.append_nil]

end Input

/-! ### Pieces in order -/

/-- Two pieces, one after the other. -/
def andThen (x y : Except FormatError (List UInt8)) : Except FormatError (List UInt8) := do
  let a ← x
  let b ← y
  return a ++ b

variable {x y : Except FormatError (List UInt8)}

/-- Two parts are written when both are, one behind the other. -/
theorem andThen_eq_ok {bytes : List UInt8} :
    andThen x y = .ok bytes ↔ ∃ a b, x = .ok a ∧ y = .ok b ∧ bytes = a ++ b := by
  unfold andThen
  simp only [bind_eq_ok]
  constructor
  · rintro ⟨a, ha, b, hb, h⟩
    cases h
    exact ⟨a, b, ha, hb, rfl⟩
  · rintro ⟨a, b, ha, hb, rfl⟩
    exact ⟨a, ha, b, hb, rfl⟩

/-- An input that begins with two parts begins with the first one, and what that leaves begins with
    the second one. -/
theorem Input.begins_andThen {s s'' : Input} :
    s.Begins (andThen x y) s'' ↔ ∃ s', s.Begins x s' ∧ s'.Begins y s'' := by
  unfold Begins
  simp only [andThen_eq_ok]
  constructor
  · rintro ⟨_, ⟨a, b, ha, hb, rfl⟩, hleaves⟩
    obtain ⟨s', hx, hy⟩ := leaves_append.1 hleaves
    exact ⟨s', ⟨a, ha, hx⟩, b, hb, hy⟩
  · rintro ⟨s', ⟨a, ha, hx⟩, b, hb, hy⟩
    exact ⟨a ++ b, ⟨a, b, ha, hb, rfl⟩, leaves_append.2 ⟨s', hx, hy⟩⟩

/-- The fields of a list are written one behind the other. -/
theorem writeFields?_cons (f : Field) (fs : List Field) :
    writeFields? (f :: fs) = andThen f.write? (writeFields? fs) := rfl

/-- A list of one field is that field. -/
theorem Input.begins_field {s s' : Input} {f : Field} :
    s.Begins (writeFields? [f]) s' ↔ s.Begins f.write? s' := by
  have hnil (t : Input) : t.Begins (writeFields? []) s' ↔ s' = t := by
    show t.Begins (.ok []) s' ↔ _
    rw [begins_ok, leaves_nil]
  simp only [writeFields?_cons, begins_andThen, hnil]
  grind

/-- A list of two fields is the one and then the other. -/
theorem Input.begins_fields {s s' : Input} {f g : Field} :
    s.Begins (writeFields? [f, g]) s' ↔ ∃ t, s.Begins f.write? t ∧ t.Begins g.write? s' := by
  rw [writeFields?_cons, begins_andThen]
  simp only [begins_field]

/-! ### Counts and blobs -/

/-- A number of items is written in four bytes, if it is a 32-bit number. -/
theorem count?_eq_ok {n : Nat} {bytes : List UInt8} :
    count? n = .ok bytes ↔ n < UInt32.size ∧ bytes = Bytes.ofNat 4 n := by
  unfold count?
  split
  · rename_i hn
    simp [hn, eq_comm]
  · rename_i hn
    simp [hn]

/-- Such a number takes four bytes. -/
theorem length_of_count? {n : Nat} {bytes : List UInt8} (h : count? n = .ok bytes) :
    bytes.length = 4 := by
  rw [(count?_eq_ok.1 h).2, Bytes.length_ofNat]

/-- A blob is its length and its content, if the length is a 32-bit number. -/
theorem blob?_eq_ok {content bytes : List UInt8} :
    blob? content = .ok bytes ↔
      content.length < UInt32.size ∧ bytes = Bytes.ofNat 4 content.length ++ content := by
  show andThen (count? content.length) (.ok content) = .ok bytes ↔ _
  rw [andThen_eq_ok]
  simp only [count?_eq_ok]
  constructor
  · rintro ⟨_, _, ⟨hlen, rfl⟩, h, rfl⟩
    cases h
    exact ⟨hlen, rfl⟩
  · rintro ⟨hlen, rfl⟩
    exact ⟨_, content, ⟨hlen, rfl⟩, rfl, rfl⟩

/-- Fields behind a tag. -/
theorem writeFields?_tagged {tag : UInt8} {fs : List Field} {bytes : List UInt8} :
    writeFields? (.u8 tag :: fs) = .ok bytes ↔
      ∃ rest, writeFields? fs = .ok rest ∧ bytes = tag :: rest := by
  have htag : Field.write? (.u8 tag) = .ok [tag] := by
    simp only [Field.write?, Bytes.ofNat, UInt8.ofNat_toNat]
  rw [writeFields?_cons, andThen_eq_ok, htag]
  constructor
  · rintro ⟨_, rest, hhead, hrest, rfl⟩
    cases hhead
    exact ⟨rest, hrest, rfl⟩
  · rintro ⟨rest, hrest, rfl⟩
    exact ⟨[tag], rest, rfl, hrest, rfl⟩

/-- A tag and a blob are a byte, the length and the content. -/
theorem writeFields?_taggedBlob {tag : UInt8} {content bytes : List UInt8} :
    writeFields? [.u8 tag, .blob content] = .ok bytes ↔
      content.length < UInt32.size ∧
        bytes = tag :: (Bytes.ofNat 4 content.length ++ content) := by
  have hfields : writeFields? [.blob content] = andThen (blob? content) (.ok []) := rfl
  rw [writeFields?_tagged, hfields]
  simp only [andThen_eq_ok, blob?_eq_ok]
  constructor
  · rintro ⟨_, ⟨_, _, ⟨hlt, rfl⟩, hnil, rfl⟩, rfl⟩
    cases hnil
    rw [List.append_nil]
    exact ⟨hlt, rfl⟩
  · rintro ⟨hlt, rfl⟩
    exact ⟨_, ⟨_, [], ⟨hlt, rfl⟩, rfl, (List.append_nil _).symm⟩, rfl⟩

namespace Reader

variable {α β : Type} {s s' : Input}

/-! ### Composed readers -/

/-- A converted result comes from a result of the reader. -/
theorem run_map_eq_ok {r : Reader α} {f : α → β} {b : β} :
    (f <$> r).run s = .ok b s' ↔ ∃ a, r.run s = .ok a s' ∧ f a = b := by
  rw [map_eq_pure_bind, run_bind_eq_ok]
  simp only [run_pure_eq_ok]
  grind

/-- `r` reads a value where an input begins with what `w` writes for it, and nowhere else. -/
def Inverts (r : Reader α) (w : α → Except FormatError (List UInt8)) : Prop :=
  ∀ s a s', r.run s = .ok a s' ↔ s.Begins (w a) s'

/-- What is read behind a reader that inverts a writer. -/
theorem Inverts.run_bind {r : Reader α} {w : α → Except FormatError (List UInt8)}
    (h : Inverts r w) {f : α → Reader β} {b : β} :
    (r >>= f).run s = .ok b s' ↔ ∃ a t, s.Begins (w a) t ∧ (f a).run t = .ok b s' := by
  rw [run_bind_eq_ok]
  simp only [h s]

/-- What a reader that inverts a writer reads, under an injective map. -/
theorem Inverts.run_map {r : Reader α} {w : α → Except FormatError (List UInt8)}
    (h : Inverts r w) {g : α → β} (hg : Function.Injective g) {a : α} :
    (g <$> r).run s = .ok (g a) s' ↔ s.Begins (w a) s' := by
  rw [run_map_eq_ok]
  simp only [hg.eq_iff, exists_eq_right, h s a s']

/-! ### Numbers -/

/-- A read of `n` bytes moves over all of them or does not move. -/
theorem run_take_eq {n : Nat} :
    (take n).run s =
      if s.rest.length < n then .error (.unexpectedEof n s.offset) s
      else .ok (s.rest.take n) ⟨s.rest.drop n, s.offset + n⟩ := by
  unfold take
  simp only [EStateM.run_bind, EStateM.run_get]
  split <;> rfl

/-- **Bytes.** Taking bytes finds those that the input leaves behind. -/
theorem run_take {n : Nat} {bytes : List UInt8} :
    (take n).run s = .ok bytes s' ↔ bytes.length = n ∧ s.Leaves bytes s' := by
  rw [run_take_eq]
  constructor
  · intro h
    split at h
    · cases h
    · cases h
      have hlen : (s.rest.take n).length = n := by
        rw [List.length_take]
        omega
      refine ⟨hlen, (List.take_append_drop n s.rest).symm, ?_⟩
      rw [hlen]
  · rintro ⟨rfl, hrest, hoffset⟩
    have hle : ¬ s.rest.length < bytes.length := by
      rw [hrest, List.length_append]
      omega
    rw [if_neg hle, hrest, List.take_left, List.drop_left, ← hoffset]

/-- **Numbers.** A number is read off its bytes, and has as many of them as the width says. -/
theorem run_number {width n : Nat} :
    (number width).run s = .ok n s' ↔
      n < Nat.pow 256 width ∧ s.Leaves (Bytes.ofNat width n) s' := by
  unfold number
  rw [run_bind_eq_ok]
  simp only [run_take, run_pure_eq_ok]
  constructor
  · rintro ⟨bytes, t, ⟨rfl, hleaves⟩, rfl, rfl⟩
    rw [Bytes.ofNat_toNat]
    exact ⟨Bytes.toNat_lt bytes, hleaves⟩
  · rintro ⟨hn, hleaves⟩
    refine ⟨Bytes.ofNat width n, s', ⟨Bytes.length_ofNat width n, hleaves⟩, ?_, rfl⟩
    exact (Bytes.toNat_ofNat width n).trans (Nat.mod_eq_of_lt hn)

/-- A reader of a number of fixed width, whose values are the numbers of that width. -/
theorem inverts_number {width : Nat} (ofNat : Nat → α) {toNat : α → Nat}
    (hlt : ∀ a, toNat a < Nat.pow 256 width) (hofNat : ∀ a, ofNat (toNat a) = a)
    (htoNat : ∀ n < Nat.pow 256 width, toNat (ofNat n) = n) :
    Inverts (do let n ← number width; return ofNat n)
      fun a => .ok (Bytes.ofNat width (toNat a)) := by
  intro s a s'
  rw [run_bind_eq_ok, Input.begins_ok]
  simp only [run_number, run_pure_eq_ok]
  constructor
  · rintro ⟨n, t, ⟨hn, hleaves⟩, rfl, rfl⟩
    rwa [htoNat n hn]
  · intro hleaves
    exact ⟨toNat a, s', ⟨hlt a, hleaves⟩, hofNat a, rfl⟩

/-- Bytes are read as they are written. -/
theorem inverts_u8 : Inverts u8 fun v => Field.write? (.u8 v) :=
  inverts_number UInt8.ofNat (fun v => v.toNat_lt) (fun _ => UInt8.ofNat_toNat)
    fun _ hn => UInt8.toNat_ofNat_of_lt' hn

/-- Numbers of 16 bits are read as they are written. -/
theorem inverts_u16 : Inverts u16 fun v => Field.write? (.u16 v) :=
  inverts_number UInt16.ofNat (fun v => v.toNat_lt) (fun _ => UInt16.ofNat_toNat)
    fun _ hn => UInt16.toNat_ofNat_of_lt' hn

/-- Numbers of 32 bits are read as they are written. -/
theorem inverts_u32 : Inverts u32 fun v => Field.write? (.u32 v) :=
  inverts_number UInt32.ofNat (fun v => v.toNat_lt) (fun _ => UInt32.ofNat_toNat)
    fun _ hn => UInt32.toNat_ofNat_of_lt' hn

/-- Signed numbers of 64 bits are read as they are written. -/
theorem inverts_i64 : Inverts i64 fun v => Field.write? (.i64 v) :=
  inverts_number (fun n => (UInt64.ofNat n).toInt64) (fun v => v.toUInt64.toNat_lt)
    (fun v => by simp) fun n hn => by simp [UInt64.toNat_ofNat_of_lt' hn]

/-- Floats are read as they are written, by their bits. -/
theorem inverts_f64 : Inverts f64 fun x => Field.write? (.f64 x) :=
  inverts_number (fun n => (⟨UInt64.ofNat n⟩ : Binary64)) (fun x => x.bits.toNat_lt)
    (fun x => by simp) fun n hn => by simp [UInt64.toNat_ofNat_of_lt' hn]

/-! ### Tags, blobs and texts -/

/-- Tags of sections are read as they are written. -/
theorem inverts_tag : Inverts tag fun t => Field.write? (.tag t) := by
  intro s t s'
  show Reader.tag.run s = .ok t s' ↔ s.Begins (.ok t.tag) s'
  unfold Reader.tag
  rw [run_bind_eq_ok, Input.begins_ok]
  simp only [run_take]
  constructor
  · rintro ⟨bytes, r, ⟨-, hleaves⟩, h⟩
    split at h
    · rename_i found hfound
      obtain ⟨rfl, rfl⟩ := run_pure_eq_ok.1 h
      rwa [Section.tag_of_ofTag? hfound]
    · cases h
  · intro hleaves
    refine ⟨t.tag, s', ⟨Section.length_tag t, hleaves⟩, ?_⟩
    rw [Section.ofTag?_tag]
    rfl

/-- Blobs are read as they are written. -/
theorem inverts_blob : Inverts blob blob? := by
  intro s content s'
  unfold blob Input.Begins
  rw [run_bind_eq_ok]
  simp only [run_number, run_take, blob?_eq_ok]
  constructor
  · rintro ⟨n, t, ⟨hn, hlength⟩, rfl, hcontent⟩
    exact ⟨_, ⟨hn, rfl⟩, Input.leaves_append.2 ⟨t, hlength, hcontent⟩⟩
  · rintro ⟨_, ⟨hlen, rfl⟩, hleaves⟩
    obtain ⟨t, hlength, hcontent⟩ := Input.leaves_append.1 hleaves
    exact ⟨content.length, t, ⟨hlen, hlength⟩, rfl, hcontent⟩

/-- Texts are read as they are written. -/
theorem inverts_text : Inverts text fun v => Field.write? (.text v) := by
  intro s v s'
  unfold text
  rw [inverts_blob.run_bind]
  constructor
  · rintro ⟨content, t, hbegins, h⟩
    split at h
    · rename_i found hfound
      obtain ⟨rfl, rfl⟩ := run_pure_eq_ok.1 h
      show s.Begins (blob? (Bytes.ofText found)) t
      rwa [Bytes.ofText_of_toText? hfound]
    · cases h
  · intro hbegins
    refine ⟨Bytes.ofText v, s', hbegins, ?_⟩
    rw [Bytes.toText?_ofText]
    rfl

end Reader

end StackCode

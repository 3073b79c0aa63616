import StackCode.Proofs.Container.Sections

namespace StackCode

/-!
# Body and trailer

What stands in a container is found from its end: the trailer tells whether the body is to be read
at all.

* `Container.sealed` — a body with its checksum section behind it.
* `Container.read?_append` — a container is read by its trailer first.
* `Container.write?_eq_ok`, `Container.read?_eq_ok` — a container is written as a sealed body, and
  read from nothing else.
* `Container.run?_readBody` — a body is read from its head and the sections behind it.
-/

/-- An encoding is found by its own tag alone. -/
theorem Encoding.ofTag?_eq_some {tag : UInt8} {e : Encoding} :
    Encoding.ofTag? tag = some e ↔ tag = e.tag := by
  constructor
  · intro h
    unfold Encoding.ofTag? at h
    split at h
    · cases h
      assumption
    · split at h
      · cases h
        assumption
      · cases h
  · rintro rfl
    exact Encoding.ofTag?_tag e

/-- A reader succeeds on bytes when it runs from their beginning. -/
theorem Reader.run?_eq_ok {α : Type} {r : Reader α} {bytes : List UInt8} {a : α} :
    r.run? bytes = .ok a ↔ ∃ t, r.run { rest := bytes } = .ok a t := by
  unfold run?
  cases r.run { rest := bytes } with
  | ok a' t => simp [eq_comm]
  | error e t => exact ⟨nofun, fun ⟨_, h⟩ => by cases h⟩

namespace Container

open Reader

variable {s s' : Input} {c : Container} {body bytes : List UInt8}

/-! ### The head of a body -/

/-- What stands before the sections of a body: the letters, the version and the encoding. -/
def head (e : Encoding) : List UInt8 := magic ++ [1, 0, e.tag]

/-- The head of a body is written without fail. -/
theorem writeHead_eq (e : Encoding) :
    writeFields? [.raw magic, .u16 version, .u8 e.tag] = .ok (head e) := by
  cases e <;> rfl

/-- The head field by field. -/
theorem begins_head {e : Encoding} :
    (∃ t t', s.Leaves magic t ∧ t.Begins (Field.write? (.u16 version)) t' ∧
      t'.Begins (Field.write? (.u8 e.tag)) s') ↔ s.Leaves (head e) s' := by
  rw [← Input.begins_ok, ← writeHead_eq, writeFields?_cons, Input.begins_andThen]
  simp only [Input.begins_fields, ← Input.begins_ok (s := s), Field.write?]
  grind

/-- A body is read when it begins with the head of the encoding, and the unit comes up to the
    end. -/
theorem run?_readBody {size : Nat} :
    (readBody size).run? body = .ok c ↔
      ∃ t, Input.Leaves ⟨body, 0⟩ (head c.encoding) t ∧
        ReadsToEnd (StoredUnit.readWith (Const.read size)) t c.unit := by
  rw [run?_eq_ok]
  unfold readBody
  -- The head is read field by field, with a check behind the letters and the version.
  simp only [run_bind_eq_ok (x := take 4), run_take, run_guard, inverts_u16.run_bind,
    inverts_u8.run_bind, not_not]
  constructor
  · rintro ⟨s', _, t, ⟨-, hletters⟩, rfl, _, t', hversion, rfl, tag, t'', htag, h⟩
    split at h
    · cases h
    · rename_i encoding hencoding
      obtain rfl := Encoding.ofTag?_eq_some.1 hencoding
      obtain ⟨unit, u, hunit, h⟩ := run_bind_eq_ok.1 h
      obtain ⟨-, hend, rfl⟩ := run_end.1 h
      exact ⟨t'', begins_head.1 ⟨t, t', hletters, hversion, htag⟩, u, hunit, hend⟩
  · rintro ⟨t'', hhead, u, hunit, hend⟩
    obtain ⟨t, t', hletters, hversion, htag⟩ := begins_head.2 hhead
    refine ⟨u, magic, t, ⟨rfl, hletters⟩, rfl, version, t', hversion, rfl, _, t'', htag, ?_⟩
    rw [Encoding.ofTag?_tag]
    exact run_bind_eq_ok.2 ⟨c.unit, u, hunit, run_end.2 ⟨rfl, hend, rfl⟩⟩

/-! ### The trailer -/

/-- The body with its checksum section behind it. -/
def sealed (body : List UInt8) : List UInt8 := body ++ trailer body

/-- All trailers have the same length. -/
theorem length_trailer (body : List UInt8) : (trailer body).length = trailerSize := by
  simp [trailer, trailerSize]

/-- A sealed body is longer by the trailer. -/
theorem length_sealed (body : List UInt8) :
    (sealed body).length = body.length + trailerSize := by
  rw [sealed, List.length_append, length_trailer]

/-- A trailer is read when its fields stand there. -/
theorem run_readTrailer {v : UInt32} :
    readTrailer.run s = .ok v s' ↔
      s.Begins (writeFields? [.tag .checksum, .u32 4, .u32 v]) s' := by
  unfold readTrailer
  rw [inverts_tag.run_bind, writeFields?_cons, Input.begins_andThen]
  simp only [run_guard, inverts_u32.run_bind, inverts_u32 _ _ _, Input.begins_fields, not_not]
  constructor
  · rintro ⟨_, t, htag, rfl, _, t', hlength, rfl, hv⟩
    exact ⟨t, htag, t', hlength, hv⟩
  · rintro ⟨t, htag, t', hlength, hv⟩
    exact ⟨_, t, htag, rfl, _, t', hlength, rfl, hv⟩

/-- Twelve bytes are read as the checksum of a body exactly when they are its trailer. -/
theorem run?_readTrailer (h : bytes.length = trailerSize) :
    readTrailer.run? bytes = .ok (crc32 body) ↔ bytes = trailer body := by
  have hwrite : writeFields? [.tag .checksum, .u32 4, .u32 (crc32 body)] = .ok (trailer body) := rfl
  rw [run?_eq_ok]
  simp only [run_readTrailer, hwrite, Input.begins_ok]
  constructor
  · rintro ⟨t, hrest, -⟩
    change bytes = trailer body ++ t.rest at hrest
    have hlen := congrArg List.length hrest
    rw [List.length_append, length_trailer, h] at hlen
    -- The three fields take all twelve bytes.
    have hnil : t.rest = [] := List.length_eq_zero_iff.1 (by omega)
    rw [hrest, hnil, List.append_nil]
  · rintro rfl
    exact ⟨⟨[], _⟩, (List.append_nil _).symm, rfl⟩

/-! ### Whole containers -/

/-- A container is written as its head and its sections, sealed. -/
theorem write?_eq_ok :
    c.write? = .ok bytes ↔
      ∃ sections, c.unit.write? = .ok sections ∧ bytes = sealed (head c.encoding ++ sections) := by
  unfold write? body?
  rw [writeHead_eq]
  simp only [bind_eq_ok]
  constructor
  · rintro ⟨_, ⟨_, hhead, sections, hsections, h⟩, hbytes⟩
    cases hhead
    cases h
    cases hbytes
    exact ⟨sections, hsections, rfl⟩
  · rintro ⟨sections, hsections, rfl⟩
    exact ⟨_, ⟨_, rfl, sections, hsections, rfl⟩, rfl⟩

/-- A body is not shorter than its head. -/
theorem length_le_of_readBody {size : Nat} (h : (readBody size).run? body = .ok c) :
    7 ≤ body.length := by
  obtain ⟨t, ⟨hrest, -⟩, -⟩ := run?_readBody.1 h
  have hbody : body = head c.encoding ++ t.rest := hrest
  rw [hbody, List.length_append]
  exact Nat.le_add_right 7 _

/-- Reading looks at the trailer, compares the checksums, and looks at the body then. -/
theorem read?_append {foot : List UInt8} (hbody : 7 ≤ body.length)
    (hfoot : foot.length = trailerSize) :
    read? (body ++ foot) = (do
      let expected ← readTrailer.run? foot
      if crc32 body ≠ expected then throw (.corrupted .checksumMismatch)
      (readBody body.length).run? body) := by
  have hlen : (body ++ foot).length = body.length + trailerSize := by
    rw [List.length_append, hfoot]
  unfold read?
  rw [if_neg (by omega), hlen, Nat.add_sub_cancel, List.take_left, List.drop_left]

/-- **Containers.** A container is read from a sealed body, and from nothing else. -/
theorem read?_eq_ok :
    read? bytes = .ok c ↔
      ∃ body, bytes = sealed body ∧ (readBody body.length).run? body = .ok c := by
  constructor
  · intro h
    unfold read? at h
    split at h
    · cases h
    · rename_i hlen
      obtain ⟨expected, hexpected, h⟩ := bind_eq_ok.1 h
      split at h
      · cases h
      · rename_i hcrc
        rw [ne_eq, not_not] at hcrc
        -- The last twelve bytes were read as the checksum of those before, so that they are its
        -- trailer.
        rw [← hcrc, run?_readTrailer (by rw [List.length_drop]; omega)] at hexpected
        refine ⟨_, ?_, h⟩
        rw [sealed, ← hexpected, List.take_append_drop]
  · rintro ⟨body, rfl, h⟩
    have htrailer : readTrailer.run? (trailer body) = .ok (crc32 body) :=
      (run?_readTrailer (length_trailer body)).2 rfl
    rw [sealed, read?_append (length_le_of_readBody h) (length_trailer body)]
    exact bind_eq_ok.2 ⟨_, htrailer, by rwa [if_neg (not_not.2 rfl)]⟩

end Container

end StackCode

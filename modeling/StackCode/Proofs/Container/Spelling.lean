import StackCode.Proofs.Container.Constants
import StackCode.Proofs.Container.Trailer

namespace StackCode

/-!
# Containers: one spelling

The reader leaves no choice in the bytes of a container but one: every byte except zero is read as
true, and true is written as one.

* `Respelled` — bytes and what the writer puts in their place.
* `Const.Respells` — what a reader reads as a constant is written again with truth bytes respelled.
* `Const.respells_read` — so it is for the reader of constants, by induction on the depth.
* `Container.write_of_read` — what is read is written again with truth bytes respelled, and the
  trailer follows from the body.
-/

/-! ### Respelled bytes -/

/-- The byte `y` stands in the place of `x`: one for a truth byte above it, or the same byte. -/
def RespelledByte (x y : UInt8) : Prop := x = y ∨ 2 ≤ x ∧ y = 1

/-- The bytes `ys` stand in the place of `xs`. -/
def Respelled (xs ys : List UInt8) : Prop := List.Forall₂ RespelledByte xs ys

namespace Respelled

variable {xs ys xs' ys' : List UInt8}

/-- Bytes are a spelling of themselves. -/
theorem refl (xs : List UInt8) : Respelled xs xs := List.forall₂_same.2 fun _ _ => .inl rfl

/-- Spellings of two parts make a spelling of the whole. -/
theorem append (h : Respelled xs ys) (h' : Respelled xs' ys') :
    Respelled (xs ++ xs') (ys ++ ys') := List.rel_append h h'

/-- Spellings have the same length. -/
theorem length_eq (h : Respelled xs ys) : ys.length = xs.length := (List.Forall₂.length_eq h).symm

/-- Spellings differ byte by byte. -/
theorem getElem? (h : Respelled xs ys) {i : Nat} {x y : UInt8} (hx : xs[i]? = some x)
    (hy : ys[i]? = some y) : RespelledByte x y := by
  obtain ⟨hi, rfl⟩ := List.getElem?_eq_some_iff.1 hx
  obtain ⟨hi', rfl⟩ := List.getElem?_eq_some_iff.1 hy
  exact (List.forall₂_iff_get.1 h).2 i hi hi'

end Respelled

/-- A truth byte is written as zero or one. -/
theorem respelledByte_truth (truth : UInt8) :
    RespelledByte truth (if decide (truth ≠ 0) then 1 else 0) := by
  by_cases hzero : truth = 0
  · subst hzero
    exact .inl rfl
  · rw [if_pos (decide_eq_true hzero)]
    by_cases hone : truth = 1
    · exact .inl hone
    · refine .inr ⟨?_, rfl⟩
      have hz : truth.toNat ≠ 0 := fun h => hzero (UInt8.toNat_inj.1 h)
      have ho : truth.toNat ≠ 1 := fun h => hone (UInt8.toNat_inj.1 h)
      exact UInt8.le_iff_toNat_le.2 (by show 2 ≤ truth.toNat; omega)

namespace Const

open Reader

variable {items : List Const} {unit : StoredUnit} {r : Reader Const} {s s' : Input}

/-! ### Constants -/

/-- What `r` reads as a constant is written again with truth bytes respelled. -/
def Respells (r : Reader Const) : Prop :=
  ∀ s c s', r.run s = .ok c s' →
    ∃ bytes bytes', s.Leaves bytes s' ∧ c.write? = .ok bytes' ∧ Respelled bytes bytes'

/-- Items that are respelled one by one are respelled in a row. -/
theorem Respells.run_times (h : Respells r) (hrun : (times r items.length).run s = .ok items s') :
    ∃ bytes bytes', s.Leaves bytes s' ∧ writeItems? items = .ok bytes' ∧
      Respelled bytes bytes' := by
  induction items generalizing s with
  | nil =>
    obtain ⟨-, rfl⟩ := run_pure_eq_ok.1 hrun
    exact ⟨[], [], Input.leaves_nil.2 rfl, by rw [writeItems?], .refl []⟩
  | cons c items ih =>
    obtain ⟨c', t, hc, hrun⟩ := run_bind_eq_ok.1 hrun
    obtain ⟨items', t', hitems, hrun⟩ := run_bind_eq_ok.1 hrun
    obtain ⟨heq, rfl⟩ := run_pure_eq_ok.1 hrun
    cases heq
    obtain ⟨first, first', hleft, hfirst, hrespelled⟩ := h s c t hc
    obtain ⟨rest, rest', hright, hrest, hrespelled'⟩ := ih hitems
    refine ⟨first ++ rest, first' ++ rest', Input.leaves_append.2 ⟨t, hleft, hright⟩, ?_,
      hrespelled.append hrespelled'⟩
    rw [writeItems?_cons]
    exact andThen_eq_ok.2 ⟨first', rest', hfirst, hrest, rfl⟩

/-- A unit is respelled where its constants are. -/
theorem Respells.readsToEnd (h : Respells r) (hunit : ReadsToEnd (StoredUnit.readWith r) s unit) :
    ∃ bytes', unit.write? = .ok bytes' ∧ Respelled s.rest bytes' := by
  obtain ⟨items, hframe, t, hitems, hend⟩ := StoredUnit.readsToEnd_readWith.1 hunit
  obtain ⟨bytes, items', ⟨hbytes, -⟩, hwrite, hrespelled⟩ := h.run_times hitems
  obtain rfl : items = bytes := by rw [← List.append_nil bytes, ← hend, ← hbytes]
  obtain ⟨front, items, back, hok, hrest, hother⟩ := StoredUnit.frame?_split hframe
  cases hok
  refine ⟨front ++ items' ++ back, ?_, ?_⟩
  · rw [StoredUnit.write?_eq, hwrite]
    exact hother items' hrespelled.length_eq
  · rw [hrest]
    exact ((Respelled.refl front).append hrespelled).append (.refl back)

/-- **Constants.** What the reader of constants reads is written again, with truth bytes
    respelled. -/
theorem respells_read (depth : Nat) : Respells (Const.read depth) := by
  induction depth with
  | zero =>
    intro s c s' hrun
    -- Without depth the reader fails behind the tag.
    obtain ⟨tag, t, -, h⟩ := run_bind_eq_ok.1 hrun
    cases h
  | succ depth ih =>
    intro s c s' hrun
    have hstands := run_read.1 hrun
    cases c with
    | none | ellipsis | int v | float x | str v | bytes bs =>
      obtain ⟨bytes, hbytes, hleaves⟩ := hstands
      refine ⟨bytes, bytes, hleaves, ?_, .refl bytes⟩
      rw [write?]
      exact hbytes
    | bool b =>
      obtain ⟨truth, ⟨bytes, hbytes, hleaves⟩, rfl⟩ := hstands
      obtain ⟨_, htruth, rfl⟩ := writeFields?_tagged.1 hbytes
      obtain ⟨_, hnil, rfl⟩ := writeFields?_tagged.1 htruth
      cases hnil
      refine ⟨_, _, hleaves, by rw [write?], ?_⟩
      exact .cons (.inl rfl) (.cons (respelledByte_truth truth) .nil)
    | tuple items =>
      obtain ⟨t, ⟨head, hhead, hleft⟩, hitems⟩ := hstands
      obtain ⟨_, n, htag, hn, rfl⟩ := andThen_eq_ok.1 hhead
      cases htag
      obtain ⟨body, body', hright, hbody, hrespelled⟩ := ih.run_times hitems
      refine ⟨_, _, Input.leaves_append.2 ⟨t, hleft, hright⟩,
        write?_tuple_eq_ok.2 ⟨n, body', hn, hbody, rfl⟩, (Respelled.refl _).append hrespelled⟩
    | code unit =>
      obtain ⟨content, ⟨bytes, hbytes, hleaves⟩, hunit⟩ := hstands
      obtain ⟨hlt, rfl⟩ := writeFields?_taggedBlob.1 hbytes
      obtain ⟨content', hcontent, hrespelled⟩ := ih.readsToEnd hunit
      -- Respelling keeps the length, and so the bytes of the length itself.
      have hlen : content'.length = content.length := hrespelled.length_eq
      have hblob : writeFields? [.u8 8, .blob content'] =
          .ok (8 :: (Bytes.ofNat 4 content.length ++ content')) :=
        writeFields?_taggedBlob.2 ⟨by rwa [hlen], by rw [hlen]⟩
      refine ⟨_, _, hleaves, write?_code_eq_ok.2 ⟨content', hcontent, hblob⟩, ?_⟩
      exact .cons (.inl rfl) ((Respelled.refl _).append hrespelled)

end Const

/-! ### Containers -/

namespace Container

variable {c : Container} {bytes : List UInt8}

/-- **One spelling.** What is read as a container is written again in as many bytes.  Before the
    trailer the bytes differ only in places where one is written for a higher byte, and where they
    agree there, they agree altogether. -/
theorem write_of_read (h : read? bytes = .ok c) :
    ∃ bytes', c.write? = .ok bytes' ∧ bytes'.length = bytes.length ∧
      (∀ i x y, i + trailerSize < bytes.length → bytes[i]? = some x → bytes'[i]? = some y →
        x ≠ y → y = 1 ∧ 2 ≤ x) ∧
      (bytes.take (bytes.length - trailerSize) = bytes'.take (bytes.length - trailerSize) →
        bytes = bytes') := by
  obtain ⟨body, rfl, hbody⟩ := read?_eq_ok.1 h
  obtain ⟨t, ⟨hrest, -⟩, hunit⟩ := run?_readBody.1 hbody
  obtain ⟨sections, hsections, hrespelled⟩ := (Const.respells_read _).readsToEnd hunit
  -- The head leaves the reader no choice; only the sections are respelled.
  have hall : Respelled body (head c.encoding ++ sections) := by
    have hparts : body = head c.encoding ++ t.rest := hrest
    rw [hparts]
    exact (Respelled.refl _).append hrespelled
  have hlen := hall.length_eq
  refine ⟨_, write?_eq_ok.2 ⟨sections, hsections, rfl⟩, ?_, ?_, ?_⟩
  · rw [length_sealed, length_sealed, hlen]
  · intro i x y hi hx hy hne
    rw [length_sealed] at hi
    have hi : i < body.length := by omega
    rw [sealed, List.getElem?_append_left hi] at hx
    rw [sealed, List.getElem?_append_left (by omega)] at hy
    obtain heq | ⟨hle, hone⟩ := hall.getElem? hx hy
    · exact absurd heq hne
    · exact ⟨hone, hle⟩
  · -- The trailer follows from the body, so that equal bodies make equal containers.
    intro htake
    rw [length_sealed, Nat.add_sub_cancel, sealed, sealed, List.take_left, ← hlen,
      List.take_left] at htake
    rw [← htake]

/-- A container whose only constant is true. -/
def truthful : Container := ⟨.legacy, { consts := [.bool true] }⟩

/-- The body of the container with `truth` as the byte for its constant. -/
def truthBody (truth : UInt8) : List UInt8 :=
  match truthful.unit.frame? (.ok [2, truth]) with
  | .ok sections => head truthful.encoding ++ sections
  | .error _ => []

/-- Another byte than `1` is read as true, and written back as `1`. -/
theorem write_read_truthful :
    read? (sealed (truthBody 7)) = .ok truthful ∧
      truthful.write? = .ok (sealed (truthBody 1)) ∧
      (sealed (truthBody 1)).length = (sealed (truthBody 7)).length := by
  have hread : read? (sealed (truthBody 7)) = .ok truthful :=
    read?_eq_ok.2 ⟨_, rfl, eq_ok_of_toOption (by decide +kernel)⟩
  have hwrite : truthful.write? = .ok (sealed (truthBody 1)) :=
    write?_eq_ok.2 ⟨(truthBody 1).drop 7, eq_ok_of_toOption (by decide +kernel),
      congrArg sealed (by decide +kernel)⟩
  obtain ⟨bytes', hbytes, hlength, -, -⟩ := write_of_read hread
  rw [hwrite] at hbytes
  cases hbytes
  exact ⟨hread, hwrite, hlength⟩

end Container

end StackCode

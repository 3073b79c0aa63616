import StackCode.Proofs.Container.RoundTrip
import StackCode.Proofs.Crc32

namespace StackCode

/-!
# Damaged containers

A trailer has three parts with a check each, and a body has the checksum.  A changed byte is noticed
by the check of its part, and never gets as far as the content of the body.

* `Section.ofTag?_set_tag` — a tag with a wrong letter is no other tag.
* `Container.read?_of_wrongTag`, `Container.read?_of_wrongSize`, `Container.read?_of_wrongSum` —
  trailers that are refused, each with its error.
* `Container.damageError` — the error for a changed byte, by the part of the container it is in.
* `Container.read?_of_damaged` — a container in which a byte was changed is not read.
-/

/-! ### Tags -/

namespace Section

/-- All sections are listed. -/
theorem mem_all (s : Section) : s ∈ all := by
  cases s <;> decide

/-- No two tags are the same but for one letter. -/
theorem eraseIdx_tag_ne :
    ∀ s ∈ all, ∀ t ∈ all, s ≠ t → ∀ i < 4, s.tag.eraseIdx i ≠ t.tag.eraseIdx i := by
  decide

/-- **Tags.** What becomes of a tag when a letter is changed opens no section. -/
theorem ofTag?_set_tag {s : Section} {i : Nat} {x : UInt8} (h : s.tag.set i x ≠ s.tag) :
    ofTag? (s.tag.set i x) = none := by
  refine List.find?_eq_none.2 fun t _ ht => ?_
  have ht : t.tag = s.tag.set i x := by simpa using ht
  by_cases hst : s = t
  · subst hst
    exact h ht.symm
  · by_cases hi : i < 4
    · -- Without the letter the two tags would be the same.
      refine eraseIdx_tag_ne s (mem_all s) t (mem_all t) hst i hi ?_
      rw [ht, List.eraseIdx_set_eq]
    · exact h (List.set_eq_of_length_le (by rw [length_tag]; omega))

end Section

/-! ### Numbers of four bytes -/

namespace Bytes

/-- Four bytes stand for a number when they are the bytes that it is written with. -/
theorem ofNat_toNat_eq_iff {bytes : List UInt8} (h : bytes.length = 4) {v : UInt32} :
    UInt32.ofNat (toNat bytes) = v ↔ bytes = ofNat 4 v.toNat := by
  have hlt : toNat bytes < UInt32.size := by
    have hlt := toNat_lt bytes
    rwa [h] at hlt
  constructor
  · rintro rfl
    rw [UInt32.toNat_ofNat_of_lt' hlt, ← h, ofNat_toNat]
  · rintro rfl
    rw [toNat_ofNat, Nat.mod_eq_of_lt v.toNat_lt, UInt32.ofNat_toNat]

/-- Different 32-bit numbers have different bytes. -/
theorem ofNat_four_inj {u v : UInt32} (h : ofNat 4 u.toNat = ofNat 4 v.toNat) : u = v := by
  have hlen := length_ofNat 4 u.toNat
  rw [← (ofNat_toNat_eq_iff hlen).2 h, (ofNat_toNat_eq_iff hlen).2 rfl]

end Bytes

/-! ### Reading the trailer -/

namespace Reader

variable {bytes rest : List UInt8} {o : Nat}

/-- As many bytes as stand in front are taken, and the rest is left. -/
theorem run_take_append {n : Nat} (h : bytes.length = n) :
    (take n).run ⟨bytes ++ rest, o⟩ = .ok bytes ⟨rest, o + n⟩ :=
  run_take.2 ⟨h, rfl, by rw [h]⟩

/-- A 32-bit number is read off four bytes in front. -/
theorem run_u32_append (h : bytes.length = 4) :
    u32.run ⟨bytes ++ rest, o⟩ = .ok (UInt32.ofNat (Bytes.toNat bytes)) ⟨rest, o + 4⟩ := by
  unfold u32 number
  simp only [EStateM.run_bind, run_take_append h, EStateM.run_pure]

/-- A tag is read off its bytes in front. -/
theorem run_tag_append (s : Section) :
    tag.run ⟨s.tag ++ rest, o⟩ = .ok s ⟨rest, o + 4⟩ := by
  unfold tag
  simp only [EStateM.run_bind, run_take_append (Section.length_tag s), Section.ofTag?_tag]
  rfl

end Reader

namespace Container

open Reader

variable {c : Container} {body bytes tag size sum rest : List UInt8} {i : Nat} {x : UInt8}

/-- A trailer is refused when its tag is unknown. -/
theorem run?_readTrailer_of_ofTag? (h : tag.length = 4) (hnone : Section.ofTag? tag = none) :
    readTrailer.run? (tag ++ rest) = .error (.invalidTag tag) := by
  unfold run? readTrailer Reader.tag
  simp only [EStateM.run_bind, run_take_append h, hnone]
  rfl

/-- A trailer is refused when it gives its checksum another size than four bytes. -/
theorem run?_readTrailer_of_size (h : size.length = 4) (hne : size ≠ Bytes.ofNat 4 4) :
    readTrailer.run? (Section.checksum.tag ++ (size ++ rest)) =
      .error (.corrupted .missingTrailer) := by
  have hfour : UInt32.ofNat (Bytes.toNat size) ≠ 4 := mt (Bytes.ofNat_toNat_eq_iff h).1 hne
  unfold run? readTrailer
  simp only [EStateM.run_bind, run_tag_append, ne_eq, not_true_eq_false, if_false,
    run_u32_append h, hfour, not_false_iff, if_true]
  rfl

/-- A trailer with the right tag and size has the checksum behind them. -/
theorem run?_readTrailer_append (h : sum.length = 4) :
    readTrailer.run? (Section.checksum.tag ++ (Bytes.ofNat 4 4 ++ sum)) =
      .ok (UInt32.ofNat (Bytes.toNat sum)) := by
  have hfour : UInt32.ofNat (Bytes.toNat (Bytes.ofNat 4 4)) = 4 := by decide
  have hsum : ∀ o, u32.run ⟨sum, o⟩ = .ok (UInt32.ofNat (Bytes.toNat sum)) ⟨[], o + 4⟩ := by
    intro o
    have happend : u32.run ⟨sum ++ [], o⟩ = _ := run_u32_append h
    rwa [List.append_nil] at happend
  unfold run? readTrailer
  simp only [EStateM.run_bind, run_tag_append, ne_eq, not_true_eq_false, if_false,
    run_u32_append (Bytes.length_ofNat 4 4), hfour, hsum]

/-! ### Trailers that are refused -/

section

variable (hbody : 7 ≤ body.length)

include hbody

/-- A container whose trailer has an unknown tag is refused with that tag. -/
theorem read?_of_wrongTag (htag : tag.length = 4) (hnone : Section.ofTag? tag = none)
    (hrest : rest.length = 8) : read? (body ++ (tag ++ rest)) = .error (.invalidTag tag) := by
  have hfoot : (tag ++ rest).length = trailerSize := by
    rw [List.length_append, htag, hrest]
    rfl
  rw [read?_append hbody hfoot, run?_readTrailer_of_ofTag? htag hnone]
  rfl

/-- A container whose trailer gives its checksum another size is refused. -/
theorem read?_of_wrongSize (hsize : size.length = 4) (hne : size ≠ Bytes.ofNat 4 4)
    (hrest : rest.length = 4) :
    read? (body ++ (Section.checksum.tag ++ (size ++ rest))) =
      .error (.corrupted .missingTrailer) := by
  have hfoot : (Section.checksum.tag ++ (size ++ rest)).length = trailerSize := by
    rw [List.length_append, List.length_append, Section.length_tag, hsize, hrest]
    rfl
  rw [read?_append hbody hfoot, run?_readTrailer_of_size hsize hne]
  rfl

/-- A container whose checksum is not that of its body is refused. -/
theorem read?_of_wrongSum (hsum : sum.length = 4) (hne : sum ≠ Bytes.ofNat 4 (crc32 body).toNat) :
    read? (body ++ (Section.checksum.tag ++ (Bytes.ofNat 4 4 ++ sum))) =
      .error (.corrupted .checksumMismatch) := by
  have hfoot : (Section.checksum.tag ++ (Bytes.ofNat 4 4 ++ sum)).length = trailerSize := by
    rw [List.length_append, List.length_append, Section.length_tag, Bytes.length_ofNat, hsum]
    rfl
  have hcrc : crc32 body ≠ UInt32.ofNat (Bytes.toNat sum) :=
    fun heq => hne ((Bytes.ofNat_toNat_eq_iff hsum).1 heq.symm)
  rw [read?_append hbody hfoot, run?_readTrailer_append hsum]
  show (if crc32 body ≠ UInt32.ofNat (Bytes.toNat sum) then _ else _) = _
  rw [if_pos hcrc]
  rfl

/-! ### Single bytes -/

/-- A changed byte of the body is noticed by the checksum alone, before the body is looked at. -/
theorem read?_set_body (h : body.set i x ≠ body) :
    read? (body.set i x ++ trailer body) = .error (.corrupted .checksumMismatch) := by
  rw [trailer, List.append_assoc]
  apply read?_of_wrongSum
  · rwa [List.length_set]
  · exact Bytes.length_ofNat ..
  · intro heq
    exact h (crc32_set.1 (Bytes.ofNat_four_inj heq).symm)

/-- The error for a byte `x` that was put in place `i` of a trailer. -/
def trailerError (i : Nat) (x : UInt8) : FormatError :=
  if i < 4 then .invalidTag (Section.checksum.tag.set i x)
  else if i < 8 then .corrupted .missingTrailer
  else .corrupted .checksumMismatch

/-- Each part of the trailer has a check of its own. -/
theorem read?_set_trailer (h : (trailer body).set i x ≠ trailer body) :
    read? (body ++ (trailer body).set i x) = .error (trailerError i x) := by
  rw [trailer, List.append_assoc] at h ⊢
  unfold trailerError
  by_cases htag : i < 4
  · -- The tag is no tag any more.
    rw [if_pos htag]
    rw [List.set_append_left _ _ (by simpa using htag)] at h ⊢
    have hset : Section.checksum.tag.set i x ≠ Section.checksum.tag := fun heq => h (by rw [heq])
    apply read?_of_wrongTag hbody
    · simp
    · exact Section.ofTag?_set_tag hset
    · simp
  rw [if_neg htag]
  rw [List.set_append_right _ _ (by simpa using htag), Section.length_tag] at h ⊢
  by_cases hsize : i < 8
  · -- The size of a checksum is four in all containers.
    rw [if_pos hsize]
    rw [List.set_append_left _ _ (by simp; omega)] at h ⊢
    apply read?_of_wrongSize hbody
    · simp
    · exact fun heq => h (by rw [heq])
    · simp
  · -- The body is as it was, and its checksum is no longer the one that stands there.
    rw [if_neg hsize]
    rw [List.set_append_right _ _ (by simp; omega)] at h ⊢
    apply read?_of_wrongSum hbody
    · simp
    · exact fun heq => h (by rw [heq])

end

/-- The error for a byte `x` that was put in place `i` of a container whose body has `n` bytes. -/
def damageError (n i : Nat) (x : UInt8) : FormatError :=
  if i < n then .corrupted .checksumMismatch else trailerError (i - n) x

/-- **Damage.** A container in which a byte was changed, whichever it is, is not read.  The checksum
    notices a change of the body or of itself, and the other parts of the trailer are compared with
    what stands there in all containers. -/
theorem read?_of_damaged (h : c.write? = .ok bytes) (hi : i < bytes.length) (hx : x ≠ bytes[i]) :
    read? (bytes.set i x) = .error (damageError (bytes.length - trailerSize) i x) := by
  have hset : bytes.set i x ≠ bytes := by
    intro heq
    have hget : (bytes.set i x)[i]? = some x := List.getElem?_set_self hi
    rw [heq, List.getElem?_eq_getElem hi] at hget
    exact hx (Option.some.inj hget).symm
  obtain ⟨sections, -, rfl⟩ := write?_eq_ok.1 h
  have hbody : 7 ≤ (head c.encoding ++ sections).length := by
    rw [List.length_append]
    exact Nat.le_add_right 7 _
  generalize head c.encoding ++ sections = body at *
  rw [length_sealed, Nat.add_sub_cancel, damageError]
  rw [sealed] at hset ⊢
  -- The byte is one of the body or one of the trailer.
  by_cases hlt : i < body.length
  · rw [List.set_append_left _ _ hlt] at hset ⊢
    rw [if_pos hlt]
    exact read?_set_body hbody fun heq => hset (by rw [heq])
  · rw [List.set_append_right _ _ (Nat.not_lt.1 hlt)] at hset ⊢
    rw [if_neg hlt]
    exact read?_set_trailer hbody fun heq => hset (by rw [heq])

/-- With the other encoding the container would be in order, if it were not for the checksum. -/
theorem read?_of_damaged_encoding :
    ∃ bytes, adder.write? = .ok bytes ∧ ∃ h : 6 < bytes.length, (0 : UInt8) ≠ bytes[6] ∧
      read? (bytes.set 6 0) = .error (damageError (bytes.length - trailerSize) 6 0) := by
  obtain ⟨bytes, h⟩ := exists_of_isOk (x := adder.write?) (by decide +kernel)
  obtain ⟨sections, -, hbytes⟩ := write?_eq_ok.1 h
  have hi : 6 < bytes.length := by
    have hhead : (head adder.encoding).length = 7 := rfl
    rw [hbytes, length_sealed, List.length_append, hhead]
    omega
  have hx : (0 : UInt8) ≠ bytes[6] := by
    have hget : bytes[6]? = some adder.encoding.tag := by rw [hbytes]; rfl
    rw [List.getElem?_eq_getElem hi, Option.some_inj] at hget
    rw [hget]
    decide
  exact ⟨bytes, h, hi, hx, read?_of_damaged h hi hx⟩

end Container

end StackCode

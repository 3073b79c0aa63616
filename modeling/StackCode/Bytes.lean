namespace StackCode.Bytes

/-!
# Numbers and text as bytes

* `ofNat`, `toNat` — little-endian numbers of a given width.
* `ofText`, `toText?` — text in UTF-8; ill-formed bytes are no text.
-/

/-- The `width` low bytes of a number, the lowest first. -/
def ofNat : (width : Nat) → Nat → List UInt8
  | 0, _ => []
  | width + 1, n => UInt8.ofNat n :: ofNat width (n / 256)

/-- The number that bytes stand for, the lowest first. -/
def toNat : List UInt8 → Nat
  | [] => 0
  | b :: bs => b.toNat + 256 * toNat bs

/-- A number is written in as many bytes as its width says. -/
@[simp] theorem length_ofNat (width n : Nat) : (ofNat width n).length = width := by
  induction width generalizing n with
  | zero => rfl
  | succ w ih => simp [ofNat, ih]

/-- A number is read back up to the bytes that its width leaves out. -/
theorem toNat_ofNat (width n : Nat) : toNat (ofNat width n) = n % Nat.pow 256 width := by
  show _ = n % 256 ^ width
  induction width generalizing n with
  | zero => simp [ofNat, toNat, Nat.mod_one]
  | succ w ih =>
    have h : n % 256 ^ (w + 1) = n % 256 + 256 * (n / 256 % 256 ^ w) := by
      rw [Nat.pow_succ, Nat.mul_comm, Nat.mod_mul]
    simp [ofNat, toNat, ih, h]

/-- Bytes that are read as a number are written back. -/
theorem ofNat_toNat (bs : List UInt8) : ofNat bs.length (toNat bs) = bs := by
  induction bs with
  | nil => rfl
  | cons b bs ih =>
    have hb := b.toNat_lt
    have h : (b.toNat + 256 * toNat bs) / 256 = toNat bs := by omega
    simp [ofNat, toNat, h, ih, UInt8.ofNat_add, UInt8.ofNat_mul]

/-- Bytes stand for numbers below the power of their width. -/
theorem toNat_lt (bs : List UInt8) : toNat bs < Nat.pow 256 bs.length := by
  show _ < 256 ^ bs.length
  induction bs with
  | nil => simp [toNat]
  | cons b bs ih =>
    have hb := b.toNat_lt
    simp only [toNat, List.length_cons, Nat.pow_succ]
    omega

/-- The bytes of `s` in UTF-8. -/
def ofText (s : String) : List UInt8 := s.toByteArray.data.toList

/-- The text whose bytes in UTF-8 are `bs`. -/
def toText? (bs : List UInt8) : Option String := String.fromUTF8? ⟨bs.toArray⟩

/-- Text is read back. -/
theorem toText?_ofText (s : String) : toText? (ofText s) = some s := by
  simp only [toText?, ofText, Array.toArray_toList, String.fromUTF8?]
  exact dif_pos s.isValidUTF8

/-- Bytes that are text are those of the text. -/
theorem ofText_of_toText? {bs : List UInt8} {s : String} (h : toText? bs = some s) :
    ofText s = bs := by
  simp only [toText?, String.fromUTF8?, Option.dite_none_right_eq_some, Option.some.injEq] at h
  obtain ⟨_, rfl⟩ := h
  simp [ofText, String.fromUTF8]

end StackCode.Bytes

import Mathlib.Logic.Function.Iterate
import StackCode.Crc32

namespace StackCode

/-!
# What a checksum notices

The register of the division goes through a bijection at each bit.  Two registers that differ stay
different, so the checksum notices a change of one byte wherever it is, and nothing need be computed
about the polynomial but that its top bit is set.

* `Crc32.step_injective` — a step of the division can be undone.
* `Crc32.update_injective`, `Crc32.update_byte_injective` — so no two checksums become the same
  when a byte is taken in, and no two bytes make the same of a checksum.
* `crc32_set` — a change of a single byte changes the checksum.
-/

namespace Crc32

variable {c d : UInt32}

/-! ### Single bits -/

/-- Masking by one tells the parity. -/
theorem and_one_eq_one : c &&& 1 = 1 ↔ c.toNat % 2 = 1 := by
  rw [← UInt32.toNat_inj, UInt32.toNat_and, UInt32.toNat_one, Nat.and_one_is_mod]

/-- A shift to the right halves the number. -/
theorem toNat_shiftRight_one (c : UInt32) : (c >>> 1).toNat = c.toNat / 2 := by
  rw [UInt32.toNat_shiftRight]
  exact Nat.shiftRight_eq_div_pow c.toNat 1

/-- A number is known by its low bit and what is shifted out above it. -/
theorem eq_of_shiftRight_one (hlow : c &&& 1 = 1 ↔ d &&& 1 = 1) (hhigh : c >>> 1 = d >>> 1) :
    c = d := by
  rw [and_one_eq_one, and_one_eq_one] at hlow
  have hhalf := congrArg UInt32.toNat hhigh
  rw [toNat_shiftRight_one, toNat_shiftRight_one] at hhalf
  apply UInt32.toNat_inj.1
  omega

/-- The polynomial has the top bit, and numbers that are shifted down do not. -/
theorem shiftRight_one_xor_ne (c d : UInt32) : (c >>> 1) ^^^ polynomial ≠ d >>> 1 := by
  intro h
  have hxor : polynomial = (c >>> 1) ^^^ (d >>> 1) := by
    rw [← h, ← UInt32.xor_assoc, UInt32.xor_self, UInt32.zero_xor]
  have hnat := congrArg UInt32.toNat hxor
  rw [UInt32.toNat_xor, toNat_shiftRight_one, toNat_shiftRight_one] at hnat
  have hc := c.toNat_lt
  have hd := d.toNat_lt
  have hlow : c.toNat / 2 ^^^ d.toNat / 2 < 2 ^ 31 := by
    apply Nat.xor_lt_two_pow
    · omega
    · omega
  have htop : 2 ^ 31 ≤ polynomial.toNat := by decide
  omega

/-- **Steps.** The bit that a step takes away below decides about the top bit of what it leaves, so
    it is known again; the other bits are only shifted. -/
theorem step_injective : Function.Injective step := by
  intro c d h
  unfold step at h
  -- If one of the two had the low bit and the other did not, the results would differ at the top.
  split at h <;> rename_i hc <;> split at h <;> rename_i hd
  · exact eq_of_shiftRight_one (iff_of_true hc hd) ((UInt32.xor_left_inj _).1 h)
  · exact absurd h (shiftRight_one_xor_ne c d)
  · exact absurd h.symm (shiftRight_one_xor_ne d c)
  · exact eq_of_shiftRight_one (iff_of_false hc hd) h

/-! ### Bytes -/

/-- A byte takes eight steps, each of which can be undone. -/
theorem xor_eq_of_update {x y : UInt8} (h : update c x = update d y) :
    c ^^^ x.toUInt32 = d ^^^ y.toUInt32 :=
  step_injective.iterate 8 h

/-- Different remainders stay different under the same byte. -/
theorem update_injective (byte : UInt8) : Function.Injective (update · byte) := by
  intro c d h
  exact (UInt32.xor_left_inj _).1 (xor_eq_of_update h)

/-- Different bytes lead from one remainder to different ones. -/
theorem update_byte_injective (c : UInt32) : Function.Injective (update c) := by
  intro x y h
  exact UInt8.toUInt32_inj.1 ((UInt32.xor_right_inj _).1 (xor_eq_of_update h))

/-- Two checksums that differ stay different, whatever bytes are taken in. -/
theorem foldl_update_injective (bytes : List UInt8) :
    Function.Injective fun c => bytes.foldl update c := by
  induction bytes with
  | nil => exact Function.injective_id
  | cons byte rest ih => exact ih.comp (update_injective byte)

/-- The checksums differ behind the byte that was changed, and from there on. -/
theorem foldl_update_set {bytes : List UInt8} {i : Nat} {x : UInt8}
    (h : (bytes.set i x).foldl update c = bytes.foldl update c) : bytes.set i x = bytes := by
  induction bytes generalizing i c with
  | nil => rfl
  | cons byte rest ih =>
    cases i with
    | zero =>
      -- What comes behind the changed byte keeps two checksums apart.
      have hbyte := update_byte_injective c (foldl_update_injective rest h)
      rw [List.set_cons_zero, hbyte]
    | succ i => exact congrArg (byte :: ·) (ih h)

end Crc32

/-- **Single bytes.** Bytes that differ in one place have different checksums. -/
theorem crc32_set {bytes : List UInt8} {i : Nat} {x : UInt8} :
    crc32 (bytes.set i x) = crc32 bytes ↔ bytes.set i x = bytes := by
  constructor
  · intro h
    exact Crc32.foldl_update_set (UInt32.not_inj.1 h)
  · intro h
    rw [h]

/-- The checksum of the digits from one to nine, by which implementations are known. -/
example : crc32 [49, 50, 51, 52, 53, 54, 55, 56, 57] = 0xCBF43926 := by decide +kernel

end StackCode

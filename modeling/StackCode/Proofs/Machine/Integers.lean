import Mathlib.Data.Rat.Floor
import StackCode.Machine.Arith

namespace StackCode

/-!
# Integer arithmetic

Every operator is compared with the check of its exact result.  Sums, differences and products are
checked just so.  Division goes through the remainder that truncates and corrects it by the signs;
powers go through squares on the way, which have 64 bits wherever the result has.

Operators on integers of 64 bits against exact arithmetic.

* `Arith.Op.exactResult?` — the exact result of an operator, where it is an integer.
* `Arith.Fits` — integers of 64 bits; `fit_bind_eq_fit` passes over a number on the way to a result.
* `Arith.FloorDivides` — division down to the floor; `exists_floorDivides` says that the operators
  that divide come to it, though they start from division toward zero.
* `Arith.powOn_eq_fit` — repeated squaring is a fault only where the power is too great.
* `Arith.onInts_eq_fit` — an operator has the exact result if that has 64 bits, and is a fault if
  not, but for a remainder and for great exponents.
* `Arith.exact_of_onInts`, `Arith.complete_of_onInts` — what a result and a fault say.
-/

/-! ### Divisors -/

namespace Binary64

/-- The sign does not count for the absolute value. -/
theorem abs_neg (x : Binary64) : x.neg.abs = x.abs := by
  unfold abs neg
  congr 1
  apply UInt64.toNat_inj.1
  rw [UInt64.toNat_and, UInt64.toNat_and, UInt64.toNat_xor, Nat.and_xor_distrib_right]
  show (x.bits.toNat &&& _) ^^^ 0 = _
  rw [Nat.xor_zero]

/-- The numbers around an integer are no closer than `2 ^ -53`. -/
theorem neg_53_le_scaleOf (num : Nat) : -53 ≤ scaleOf num 1 := by
  have hlog : Nat.log2 1 = 0 := by decide
  unfold scaleOf
  dsimp only
  rw [hlog]
  split <;> omega

/-- A number whose bits are below that of the sign is no zero, unless they all are. -/
theorem isZero_ofNat_bits {n : Nat} (hpos : 0 < n) (hn : n < 0x8000000000000000) :
    (⟨UInt64.ofNat n⟩ : Binary64).isZero = false := by
  refine decide_eq_false fun hzero => ?_
  have hbits : (UInt64.ofNat n &&& 0x7FFFFFFFFFFFFFFF).toNat = n := by
    rw [UInt64.toNat_and, UInt64.toNat_ofNat_of_lt' (Nat.lt_trans hn (by decide))]
    show n &&& 2 ^ 63 - 1 = n
    rw [Nat.and_two_pow_sub_one_eq_mod, Nat.mod_eq_of_lt hn]
  have hsame : (UInt64.ofNat n &&& 0x7FFFFFFFFFFFFFFF).toNat = 0 := congrArg UInt64.toNat hzero
  omega

/-- A whole number other than zero does not round to zero. -/
theorem isZero_ofRatio_one {num : Nat} (h : num ≠ 0) : (ofRatio num 1).isZero = false := by
  have hscale := neg_53_le_scaleOf num
  unfold ofRatio
  rw [if_neg h]
  dsimp only
  split
  · -- The exponent field is positive already, whatever the significand is.
    rename_i hbits
    refine isZero_ofNat_bits ?_ (by omega)
    rw [Nat.shiftLeft_eq]
    omega
  · decide

/-- Only zero is rounded to zero. -/
theorem isZero_ofInt {i : Int} (h : i ≠ 0) : (ofInt i).isZero = false := by
  have hnum : i.natAbs ≠ 0 := Int.natAbs_ne_zero.2 h
  unfold ofInt
  dsimp only
  split
  · unfold isZero
    rw [abs_neg]
    exact isZero_ofRatio_one hnum
  · exact isZero_ofRatio_one hnum

end Binary64

namespace Arith

/-! ### Integers of 64 bits -/

/-- The integer has 64 bits. -/
def Fits (i : ℤ) : Prop := -2 ^ 63 ≤ i ∧ i < 2 ^ 63

/-- Whether an integer fits is a matter of two comparisons. -/
instance : DecidablePred Fits := fun i =>
  inferInstanceAs (Decidable (-2 ^ 63 ≤ i ∧ i < 2 ^ 63))

/-- Numbers of the machine fit. -/
theorem fits_toInt (v : Int64) : Fits v.toInt := ⟨v.le_toInt, v.toInt_lt⟩

/-- Zero is the only number with the value zero. -/
theorem toInt_eq_zero {v : Int64} : v.toInt = 0 ↔ v = 0 := Int64.toInt_inj (y := 0)

/-- A check succeeds with the number of that value. -/
theorem fit_eq_ok {i : ℤ} {v : Int64} : fit i = .ok v ↔ v.toInt = i := by
  unfold fit Text.fitInt64?
  by_cases h : (Int64.ofInt i).toInt = i
  · simp only [if_pos h, Except.ok.injEq]
    constructor
    · rintro rfl
      exact h
    · rintro rfl
      exact Int64.ofInt_toInt v
  · simp only [if_neg h, reduceCtorEq, false_iff]
    rintro rfl
    exact h (congrArg Int64.toInt (Int64.ofInt_toInt v))

/-- What fits passes the check. -/
theorem fit_of_fits {i : ℤ} (h : Fits i) : fit i = .ok (Int64.ofInt i) :=
  fit_eq_ok.2 (Int64.toInt_ofInt_of_le h.1 h.2)

/-- What does not fit is an overflow. -/
theorem fit_of_not_fits {i : ℤ} (h : ¬Fits i) : fit i = .error .overflow := by
  have hne : (Int64.ofInt i).toInt ≠ i := by
    intro heq
    rw [← heq] at h
    exact h (fits_toInt _)
  unfold fit Text.fitInt64?
  rw [if_neg hne]

/-- A number on the way to a result is checked for nothing if it has 64 bits where the result
    has. -/
theorem fit_bind_eq_fit {i j : ℤ} {k : Int64 → Except Fault Int64} (hfits : Fits j → Fits i)
    (hk : ∀ v : Int64, v.toInt = i → k v = fit j) : (fit i >>= k) = fit j := by
  by_cases hi : Fits i
  · rw [fit_of_fits hi]
    exact hk _ (fit_eq_ok.1 (fit_of_fits hi))
  · rw [fit_of_not_fits hi, fit_of_not_fits fun hj => hi (hfits hj)]
    rfl

/-! ### Division down to the floor -/

/-- Division of `a` by `b` down to the floor: the remainder `s` lies between zero and the
    divisor. -/
structure FloorDivides (a b z s : ℤ) : Prop where
  eq : b * z + s = a
  between : 0 ≤ s ∧ s < b ∨ b < s ∧ s ≤ 0

namespace FloorDivides

variable {a b z s : ℤ}

/-- The quotient is the floor of the exact quotient. -/
theorem floor_eq (h : FloorDivides a b z s) : ⌊(a / b : ℚ)⌋ = z := by
  have hb : (b : ℚ) ≠ 0 := by
    have := h.between
    exact Int.cast_ne_zero.2 (by omega)
  have hsplit : (a / b : ℚ) = z + s / b := by
    rw [← h.eq, Int.cast_add, Int.cast_mul, add_div, mul_div_cancel_left₀ _ hb]
  rw [hsplit, Int.floor_intCast_add, Int.floor_eq_zero_iff.2, add_zero]
  rcases h.between with ⟨hlow, hhigh⟩ | ⟨hlow, hhigh⟩
  · have hpos : (0 : ℚ) < b := Int.cast_pos.2 (by omega)
    exact ⟨div_nonneg (Int.cast_nonneg hlow) hpos.le, (div_lt_one hpos).2 (Int.cast_lt.2 hhigh)⟩
  · have hneg : (b : ℚ) < 0 := Int.cast_lt_zero.2 (by omega)
    exact ⟨div_nonneg_of_nonpos (Int.cast_nonpos.2 hhigh) hneg.le,
      (div_lt_one_of_neg hneg).2 (Int.cast_lt.2 hlow)⟩

/-- Only the quotient of the least integer by `-1` has more than 64 bits. -/
theorem fits (h : FloorDivides a b z s) (ha : Fits a) (hmin : ¬(a = -2 ^ 63 ∧ b = -1)) :
    Fits z := by
  obtain ⟨hlow, hhigh⟩ := ha
  have heq := h.eq
  -- The quotient is no further from zero than the dividend, and only `-1` can turn the least
  -- integer round.
  rcases h.between with ⟨hs, hsb⟩ | ⟨hbs, hs⟩
  · have hb : 1 ≤ b := by omega
    constructor
    · by_contra hz
      have : b * (z + 1) ≤ 1 * (z + 1) := Int.mul_le_mul_of_nonpos_right hb (by omega)
      rw [Int.mul_add b] at this
      omega
    · by_contra hz
      have : 1 * z ≤ b * z := Int.mul_le_mul_of_nonneg_right hb (by omega)
      omega
  · have hb : b ≤ -1 := by omega
    constructor
    · by_contra hz
      have : -1 * (z + 1) ≤ b * (z + 1) := Int.mul_le_mul_of_nonpos_right hb (by omega)
      rw [Int.mul_add b] at this
      omega
    · by_contra hz
      have : b * z ≤ -1 * z := Int.mul_le_mul_of_nonneg_right hb (by omega)
      refine hmin ⟨by omega, ?_⟩
      by_contra hb'
      have : b * z ≤ -2 * z := Int.mul_le_mul_of_nonneg_right (by omega) (by omega)
      omega

/-- The remainder has the sign of the divisor, and is smaller. -/
theorem sign_eq (h : FloorDivides a b z s) : (s = 0 ∨ s.sign = b.sign) ∧ |s| < |b| := by
  rcases h.between with ⟨hs, hsb⟩ | ⟨hbs, hs⟩
  · rw [abs_of_nonneg hs, abs_of_pos (by omega)]
    refine ⟨?_, hsb⟩
    by_cases hzero : s = 0
    · exact .inl hzero
    · right
      rw [Int.sign_eq_one_of_pos (by omega), Int.sign_eq_one_of_pos (by omega)]
  · rw [abs_of_nonpos hs, abs_of_neg (by omega)]
    refine ⟨?_, by omega⟩
    by_cases hzero : s = 0
    · exact .inl hzero
    · right
      rw [Int.sign_eq_neg_one_of_neg (by omega), Int.sign_eq_neg_one_of_neg (by omega)]

/-- The remainder has no more bits than the divisor. -/
theorem fits_remainder (h : FloorDivides a b z s) (hb : Fits b) : Fits s := by
  obtain ⟨hlow, hhigh⟩ := hb
  have := h.between
  constructor <;> omega

end FloorDivides

/-- A remainder toward zero has the sign of the dividend. -/
theorem tmod_neg_iff {a b : ℤ} (h : a.tmod b ≠ 0) : a.tmod b < 0 ↔ a < 0 := by
  have hsign := Int.sign_tmod a b
  rw [if_neg fun hdvd => h (Int.tmod_eq_zero_of_dvd hdvd)] at hsign
  rw [← Int.sign_eq_neg_one_iff_neg, hsign, Int.sign_eq_neg_one_iff_neg]

/-- From division toward zero to division down to the floor: where the remainder has another sign
    than the divisor, the quotient is one less. -/
theorem floorDivides_tdiv {a b : ℤ} (hb : b ≠ 0) :
    if a.tmod b ≠ 0 ∧ ¬(a.tmod b < 0 ↔ b < 0) then
      FloorDivides a b (a.tdiv b - 1) (a.tmod b + b)
    else FloorDivides a b (a.tdiv b) (a.tmod b) := by
  have heq := Int.mul_tdiv_add_tmod a b
  have habs : (a.tmod b).natAbs < b.natAbs := by
    rw [Int.natAbs_tmod]
    exact Nat.mod_lt _ (by omega)
  split
  · refine ⟨?_, by omega⟩
    rw [Int.mul_sub, Int.mul_one]
    omega
  · exact ⟨heq, by omega⟩

/-- A floor division by a number other than zero has a quotient and a remainder. -/
theorem FloorDivides.exists_of_ne_zero (a : ℤ) {b : ℤ} (hb : b ≠ 0) :
    ∃ z s, FloorDivides a b z s := by
  have hfloor := floorDivides_tdiv (a := a) hb
  split at hfloor
  · exact ⟨_, _, hfloor⟩
  · exact ⟨_, _, hfloor⟩

/-! ### Integer quotients and remainders -/

variable {a b : Int64}

/-- Of all quotients, only that of the least integer by `-1` is a fault. -/
theorem quotient_eq (hmin : ¬(a = Int64.minValue ∧ b = -1)) : quotient a b = .ok (a / b) := by
  rw [quotient, fit_eq_ok]
  by_cases ha : a = Int64.minValue
  · exact Int64.toInt_div_of_ne_right _ _ fun h => hmin ⟨ha, h⟩
  · exact Int64.toInt_div_of_ne_left _ _ ha

/-- The remainder that truncates is exact, but for the least number by `-1`. -/
theorem remainder_eq (hmin : ¬(a = Int64.minValue ∧ b = -1)) : remainder a b = .ok (a % b) := by
  rw [remainder, quotient_eq hmin]
  rfl

/-- A sum that has 64 bits is not wrapped. -/
theorem toInt_add_of_fits (h : Fits (a.toInt + b.toInt)) : (a + b).toInt = a.toInt + b.toInt := by
  rw [Int64.toInt_add]
  exact Int.bmod_eq_of_le h.1 h.2

/-- Differences that fit are computed without wrapping around. -/
theorem toInt_sub_of_fits (h : Fits (a.toInt - b.toInt)) : (a - b).toInt = a.toInt - b.toInt := by
  rw [Int64.toInt_sub]
  exact Int.bmod_eq_of_le h.1 h.2

/-- The test of whether a remainder has another sign than the divisor. -/
theorem differs_iff {r : Int64} :
    (r != 0 && (decide (r < 0) != decide (b < 0))) = true ↔
      r.toInt ≠ 0 ∧ ¬(r.toInt < 0 ↔ b.toInt < 0) := by
  simp only [Bool.and_eq_true, bne_iff_ne, ne_eq, toInt_eq_zero, decide_eq_decide,
    Int64.lt_iff_toInt_lt, Int64.toInt_zero]

/-- The test may ask for the sign of the dividend in place of that of the remainder. -/
theorem differs_dividend :
    (a % b != 0 && (decide (a < 0) != decide (b < 0))) =
      (a % b != 0 && (decide (a % b < 0) != decide (b < 0))) := by
  by_cases h : a % b = 0
  · rw [h]
    rfl
  · have hne : a.toInt.tmod b.toInt ≠ 0 := by
      rw [← Int64.toInt_mod]
      exact mt toInt_eq_zero.1 h
    have hsign : a < 0 ↔ a % b < 0 := by
      rw [Int64.lt_iff_toInt_lt, Int64.lt_iff_toInt_lt, Int64.toInt_mod, Int64.toInt_zero,
        tmod_neg_iff hne]
    rw [decide_eq_decide.2 hsign]

/-- **Division.** Quotient and remainder of the two operators are those of division down to the
    floor: the corrections of division toward zero are not wrapped. -/
theorem exists_floorDivides (hb : b ≠ 0) (hmin : ¬(a = Int64.minValue ∧ b = -1)) :
    ∃ q r, floorQuotient a b = .ok q ∧ floorRemainder a b = .ok r ∧
      FloorDivides a.toInt b.toInt q.toInt r.toInt := by
  have hmin' : ¬(a.toInt = -2 ^ 63 ∧ b.toInt = -1) := fun h =>
    hmin ⟨Int64.toInt_inj.1 h.1, Int64.toInt_inj.1 h.2⟩
  have hquotient : (a / b).toInt = a.toInt.tdiv b.toInt := fit_eq_ok.1 (quotient_eq hmin)
  have hfloor := floorDivides_tdiv (a := a.toInt) (mt toInt_eq_zero.1 hb)
  rw [← hquotient, ← Int64.toInt_mod] at hfloor
  rw [floorQuotient, floorRemainder, quotient_eq hmin, remainder_eq hmin, differs_dividend]
  -- The operators correct quotient and remainder just where the remainder has the other sign.
  by_cases hdiffers : (a % b).toInt ≠ 0 ∧ ¬((a % b).toInt < 0 ↔ b.toInt < 0)
  · rw [if_pos hdiffers] at hfloor
    have hone : (1 : Int64).toInt = 1 := rfl
    refine ⟨a / b - 1, a % b + b, ?_, ?_, ?_⟩
    · exact congrArg Except.ok (if_pos (differs_iff.2 hdiffers))
    · exact congrArg Except.ok (if_pos (differs_iff.2 hdiffers))
    · rw [toInt_add_of_fits (hfloor.fits_remainder (fits_toInt b)),
        toInt_sub_of_fits (hone ▸ hfloor.fits (fits_toInt a) hmin')]
      exact hfloor
  · rw [if_neg hdiffers] at hfloor
    refine ⟨a / b, a % b, ?_, ?_, hfloor⟩
    · exact congrArg Except.ok (if_neg fun h => hdiffers (differs_iff.1 h))
    · exact congrArg Except.ok (if_neg fun h => hdiffers (differs_iff.1 h))

/-- The least integer divided by `-1`. -/
theorem floorDivides_minValue :
    FloorDivides Int64.minValue.toInt (-1 : Int64).toInt (2 ^ 63) 0 :=
  ⟨by decide, by decide⟩

/-- A quotient is the floor of the exact quotient, if that has 64 bits. -/
theorem floorQuotient_eq_fit (hb : b ≠ 0) :
    floorQuotient a b = fit ⌊(a.toInt / b.toInt : ℚ)⌋ := by
  by_cases hmin : a = Int64.minValue ∧ b = -1
  · obtain ⟨rfl, rfl⟩ := hmin
    rw [floorDivides_minValue.floor_eq, fit_of_not_fits (by decide)]
    decide
  · obtain ⟨q, r, hq, -, hfloor⟩ := exists_floorDivides hb hmin
    rw [hq, hfloor.floor_eq, fit_eq_ok.2 rfl]

/-- A remainder is what the floor of the exact quotient leaves, if there is a quotient. -/
theorem floorRemainder_eq_fit (hb : b ≠ 0) (hmin : ¬(a = Int64.minValue ∧ b = -1)) :
    floorRemainder a b = fit (a.toInt - b.toInt * ⌊(a.toInt / b.toInt : ℚ)⌋) := by
  obtain ⟨q, r, -, hr, hfloor⟩ := exists_floorDivides hb hmin
  rw [hr, hfloor.floor_eq, ← hfloor.eq, add_sub_cancel_left, fit_eq_ok.2 rfl]

/-! ### Powers -/

/-- A factor of an integer of 64 bits has 64 bits if the other factor is positive. -/
theorem Fits.of_mul {i j : ℤ} (h : Fits (i * j)) (hj : 0 < j) : Fits i := by
  obtain ⟨hlow, hhigh⟩ := h
  constructor
  · by_contra hi
    have : i * j ≤ i * 1 := Int.mul_le_mul_of_nonpos_left (by omega) (by omega)
    omega
  · by_contra hi
    have : i * 1 ≤ i * j := Int.mul_le_mul_of_nonneg_left (by omega) (by omega)
    omega

/-- No square is `2 ^ 63`, so that a square up to there has 64 bits. -/
theorem fits_square {i : ℤ} (h : i.natAbs * i.natAbs ≤ 2 ^ 63) : Fits (i * i) := by
  have hroot : i.natAbs ≤ 3037000499 := by
    by_contra hroot
    have := Nat.mul_le_mul (Nat.lt_of_not_le hroot) (Nat.lt_of_not_le hroot)
    omega
  have hsquare := Nat.mul_le_mul hroot hroot
  rw [← Int.natAbs_mul_self]
  constructor <;> omega

section

variable {acc base : ℤ} {k : ℕ}

/-- The accumulator times the base has 64 bits where the result has: what is left is a square. -/
theorem Fits.mul_base (h : Fits (acc * base * (base * base) ^ k)) : Fits (acc * base) := by
  by_cases hbase : base = 0
  · rw [hbase, mul_zero]
    decide
  · have hpos : 0 < base * base := mul_self_pos.2 hbase
    exact h.of_mul (pow_pos hpos k)

/-- The square of the base has 64 bits where the result has. -/
theorem Fits.square_base (h : Fits (acc * (base * base) ^ k)) (hacc : base ≠ 0 → acc ≠ 0)
    (hk : k ≠ 0) : Fits (base * base) := by
  by_cases hbase : base = 0
  · rw [hbase]
    decide
  · have hne : acc * (base * base) ^ k ≠ 0 :=
      mul_ne_zero (hacc hbase) (pow_ne_zero k (mul_self_ne_zero.2 hbase))
    have hdvd : base * base ∣ acc * (base * base) ^ k := Dvd.dvd.mul_left (dvd_pow_self _ hk) acc
    have hle := Nat.le_of_dvd (Int.natAbs_pos.2 hne) (Int.natAbs_dvd_natAbs.2 hdvd)
    rw [Int.natAbs_mul] at hle
    obtain ⟨hlow, hhigh⟩ := h
    exact fits_square (by omega)

end

/-- **Repeated squaring.** It gives the product with the power where that has 64 bits, and is a
    fault where not: no number on the way has more bits than the result. -/
theorem powOn_eq_fit {n : ℕ} (hn : 0 < n) {acc base : Int64}
    (hacc : base.toInt ≠ 0 → acc.toInt ≠ 0) :
    powOn acc base n = fit (acc.toInt * base.toInt ^ n) := by
  -- The induction follows the halving of the exponent; the accumulator is zero only with the base.
  induction n using Nat.strong_induction_on generalizing acc base with
  | _ n ih =>
    have hrest : ∀ acc : Int64, (base.toInt ≠ 0 → acc.toInt ≠ 0) →
        (if n ≤ 1 then pure acc
          else do
            let square ← fit (base.toInt * base.toInt)
            powOn acc square (n / 2)) =
          fit (acc.toInt * (base.toInt * base.toInt) ^ (n / 2)) := by
      intro acc hacc
      by_cases hlast : n ≤ 1
      · have hzero : n / 2 = 0 := by omega
        rw [if_pos hlast, hzero, pow_zero, mul_one, fit_eq_ok.2 rfl]
        rfl
      · rw [if_neg hlast]
        refine fit_bind_eq_fit (·.square_base hacc (by omega)) fun square hsquare => ?_
        rw [← hsquare]
        refine ih (n / 2) (by omega) (by omega) fun hne => hacc fun hzero => hne ?_
        rw [hsquare, hzero, mul_zero]
    have hsquares : base.toInt ^ n =
        base.toInt ^ (n % 2) * (base.toInt * base.toInt) ^ (n / 2) := by
      rw [← sq, ← pow_mul, ← pow_add, Nat.mod_add_div]
    rw [powOn, hsquares]
    by_cases hodd : n % 2 = 1
    · rw [if_pos hodd, hodd, pow_one, ← mul_assoc]
      refine fit_bind_eq_fit Fits.mul_base fun product hproduct => ?_
      rw [← hproduct]
      refine hrest product fun hbase => ?_
      rw [hproduct]
      exact mul_ne_zero (hacc hbase) hbase
    · have heven : n % 2 = 0 := by omega
      rw [if_neg hodd, heven, pow_zero, one_mul]
      exact hrest acc hacc

/-- **Powers.** Repeated squaring checks no number that is not part of the result, so that a power
    fails only when it does not fit itself. -/
theorem powInt_eq_fit (base : Int64) (n : ℕ) : powInt base n = fit (base.toInt ^ n) := by
  rw [powInt]
  by_cases hn : n = 0
  · rw [if_pos hn, hn, pow_zero]
    rfl
  · have hone : (1 : Int64).toInt = 1 := rfl
    rw [if_neg hn, powOn_eq_fit (Nat.pos_of_ne_zero hn) fun _ => by decide, hone, one_mul]

/-! ### Exact results -/

/-- The exact result of an operator on integers, where it is an integer. -/
def Op.exactResult? (op : Op) (a b : ℤ) : Option ℤ :=
  match op with
  | add => some (a + b)
  | sub => some (a - b)
  | mul => some (a * b)
  | trueDiv => none
  | floorDiv => if b = 0 then none else some ⌊(a / b : ℚ)⌋
  | mod => if b = 0 then none else some (a - b * ⌊(a / b : ℚ)⌋)
  | pow => if b < 0 then none else some (a ^ b.toNat)

/-- Operators without an exact result: true division, a floor division by zero, and a power with a
    negative exponent. -/
theorem Op.exactResult?_eq_none {op : Op} {a b : ℤ} :
    op.exactResult? a b = none ↔
      op = trueDiv ∨ (op = floorDiv ∨ op = mod) ∧ b = 0 ∨ op = pow ∧ b < 0 := by
  cases op <;> simp [Op.exactResult?]

variable {op : Op} {x : ℤ}

/-- The guard of the operators lets a divisor other than zero through, and operators that do not
    divide. -/
theorem not_guard (h : b ≠ 0 ∨ op.divides = false) :
    ¬(decide (b = 0) && op.divides) = true := by
  rcases h with hb | hdivides
  · rw [decide_eq_false hb, Bool.false_and]
    exact Bool.false_ne_true
  · rw [hdivides, Bool.and_false]
    exact Bool.false_ne_true

/-- A true division by a number other than zero has a float. -/
theorem onInts_trueDiv (hb : b ≠ 0) : ∃ y, onInts .trueDiv a b = .ok (.float y) := by
  have hzero := Binary64.isZero_ofInt (mt toInt_eq_zero.1 hb)
  rw [onInts, if_neg (not_guard (.inl hb)), onFloats, hzero]
  exact ⟨_, rfl⟩

/-- Integers to a power that is negative, or that is beyond 32 bits, are powers of
    floating-point numbers. -/
theorem onInts_pow_float (h : b.toInt < 0 ∨ 2 ^ 32 ≤ b.toInt) :
    ∃ y, onInts .pow a b = .ok (.float y) := by
  have hsize : UInt32.size = 2 ^ 32 := rfl
  have hrange : ¬(0 ≤ b.toInt ∧ b.toInt.toNat < UInt32.size) := by omega
  have hdivides : Op.pow.divides = false := rfl
  rw [onInts, if_neg (not_guard (.inr rfl)), if_neg hrange, onFloats, hdivides,
    Bool.and_false]
  exact ⟨_, rfl⟩

/-- **Exact results.** An operator has the exact result if that has 64 bits, and is a fault if not,
    but for the remainder of the least integer by `-1` and for exponents beyond 32 bits. -/
theorem onInts_eq_fit (hx : op.exactResult? a.toInt b.toInt = some x)
    (hmod : ¬(op = .mod ∧ a = Int64.minValue ∧ b = -1))
    (hpow : ¬(op = .pow ∧ 2 ^ 32 ≤ b.toInt)) : onInts op a b = Const.int <$> fit x := by
  cases op with
  | add | sub | mul =>
    cases hx
    rw [onInts, if_neg (not_guard (.inr rfl))]
  | trueDiv => cases hx
  | floorDiv =>
    obtain ⟨hb, hx⟩ := Option.ite_none_left_eq_some.1 hx
    cases hx
    rw [onInts, if_neg (not_guard (.inl (mt toInt_eq_zero.2 hb)))]
    exact congrArg _ (floorQuotient_eq_fit (mt toInt_eq_zero.2 hb))
  | mod =>
    obtain ⟨hb, hx⟩ := Option.ite_none_left_eq_some.1 hx
    cases hx
    rw [onInts, if_neg (not_guard (.inl (mt toInt_eq_zero.2 hb)))]
    exact congrArg _ (floorRemainder_eq_fit (mt toInt_eq_zero.2 hb) fun h => hmod ⟨rfl, h⟩)
  | pow =>
    obtain ⟨hb, hx⟩ := Option.ite_none_left_eq_some.1 hx
    cases hx
    have hsize : UInt32.size = 2 ^ 32 := rfl
    -- The exponent has 32 bits, so that the power is taken on integers.
    have hsmall : ¬2 ^ 32 ≤ b.toInt := fun h => hpow ⟨rfl, h⟩
    have hrange : 0 ≤ b.toInt ∧ b.toInt.toNat < UInt32.size := by omega
    rw [onInts, if_neg (not_guard (.inr rfl)), if_pos hrange, powInt_eq_fit]

/-- All three divisions refuse a zero divisor. -/
theorem onInts_zero (h : op.divides = true) : onInts op a 0 = .error .divisionByZero := by
  have hguard : (decide ((0 : Int64) = 0) && op.divides) = true := by rw [h]; rfl
  unfold onInts
  rw [if_pos hguard]

/-- The remainder of the least number by `-1` is refused, although it is zero. -/
theorem onInts_mod_minValue : onInts .mod Int64.minValue (-1) = .error .overflow := by
  decide

/-- **Operators.** Division by zero is a fault, and so is the remainder of the least integer by
    `-1`; powers to great exponents, and results that are no integers, are floating-point numbers;
    all other results are exact if they have 64 bits. -/
theorem onInts_cases (op : Op) (a b : Int64) :
    (b = 0 ∧ op.divides = true ∧ onInts op a b = .error .divisionByZero) ∨
    (op = .mod ∧ a = Int64.minValue ∧ b = -1 ∧ onInts op a b = .error .overflow) ∨
    ((op.exactResult? a.toInt b.toInt = none ∨ op = .pow ∧ 2 ^ 32 ≤ b.toInt) ∧
      ∃ y, onInts op a b = .ok (.float y)) ∨
    ∃ x, op.exactResult? a.toInt b.toInt = some x ∧ onInts op a b = Const.int <$> fit x := by
  by_cases hdivisor : b = 0 ∧ op.divides = true
  · obtain ⟨rfl, hdivides⟩ := hdivisor
    exact .inl ⟨rfl, hdivides, onInts_zero hdivides⟩
  by_cases hmod : op = .mod ∧ a = Int64.minValue ∧ b = -1
  · obtain ⟨rfl, rfl, rfl⟩ := hmod
    exact .inr (.inl ⟨rfl, rfl, rfl, onInts_mod_minValue⟩)
  by_cases hpow : op = .pow ∧ 2 ^ 32 ≤ b.toInt
  · obtain ⟨rfl, hgreat⟩ := hpow
    exact .inr (.inr (.inl ⟨.inr ⟨rfl, hgreat⟩, onInts_pow_float (.inr hgreat)⟩))
  cases hx : op.exactResult? a.toInt b.toInt with
  | some x => exact .inr (.inr (.inr ⟨x, rfl, onInts_eq_fit hx hmod hpow⟩))
  | none =>
    refine .inr (.inr (.inl ⟨.inl rfl, ?_⟩))
    -- Without an exact result the operator divides truly, divides by zero, or has a negative
    -- exponent.
    rcases Op.exactResult?_eq_none.1 hx with rfl | ⟨rfl | rfl, hb⟩ | ⟨rfl, hb⟩
    · exact onInts_trueDiv fun hb => hdivisor ⟨hb, rfl⟩
    · exact absurd ⟨toInt_eq_zero.1 hb, rfl⟩ hdivisor
    · exact absurd ⟨toInt_eq_zero.1 hb, rfl⟩ hdivisor
    · exact onInts_pow_float (.inl hb)

/-- An exact remainder is that of division down to the floor. -/
theorem floorDivides_of_exactResult? {a b : ℤ} (h : Op.exactResult? .mod a b = some x) :
    ∃ z, FloorDivides a b z x := by
  obtain ⟨hb, hx⟩ := Option.ite_none_left_eq_some.1 h
  obtain ⟨z, s, hfloor⟩ := FloorDivides.exists_of_ne_zero a hb
  rw [hfloor.floor_eq, ← hfloor.eq, add_sub_cancel_left] at hx
  cases hx
  exact ⟨z, hfloor⟩

/-- A checked result has the exact value. -/
theorem map_fit_eq_int {v : Int64} (h : Const.int <$> fit x = .ok (.int v)) : v.toInt = x := by
  by_cases hx : Fits x
  · rw [fit_of_fits hx] at h
    cases h
    exact fit_eq_ok.1 (fit_of_fits hx)
  · rw [fit_of_not_fits hx] at h
    cases h

/-- A check is no division. -/
theorem map_fit_ne_divisionByZero : Const.int <$> fit x ≠ .error .divisionByZero := by
  by_cases h : Fits x
  · rw [fit_of_fits h]
    nofun
  · rw [fit_of_not_fits h]
    nofun

/-- The operators that divide. -/
theorem Op.divides_iff : op.divides = true ↔ op = .trueDiv ∨ op = .floorDiv ∨ op = .mod := by
  cases op <;> decide

/-- **Soundness.** An integer that comes of an operator is its exact result; a remainder has the
    sign of the divisor and is smaller.  Division by zero is the fault of operators that divide by
    zero, and of nothing else. -/
theorem exact_of_onInts (op : Op) (a b : Int64) :
    (∀ v, onInts op a b = .ok (.int v) → op.exactResult? a.toInt b.toInt = some v.toInt ∧
      (op = .mod → (v.toInt = 0 ∨ v.toInt.sign = b.toInt.sign) ∧ |v.toInt| < |b.toInt|)) ∧
    (onInts op a b = .error .divisionByZero ↔
      b = 0 ∧ (op = .trueDiv ∨ op = .floorDiv ∨ op = .mod)) := by
  rw [← Op.divides_iff]
  rcases onInts_cases op a b with ⟨hb, hdivides, h⟩ | ⟨-, -, hb, h⟩ | ⟨-, y, h⟩ | ⟨x, hx, h⟩
  all_goals rw [h]
  · exact ⟨nofun, ⟨fun _ => ⟨hb, hdivides⟩, fun _ => rfl⟩⟩
  · subst hb
    exact ⟨nofun, nofun, nofun⟩
  · refine ⟨nofun, nofun, fun hzero => ?_⟩
    obtain ⟨rfl, hdivides⟩ := hzero
    rw [onInts_zero hdivides] at h
    cases h
  · refine ⟨fun v hv => ?_, fun hzero => absurd hzero map_fit_ne_divisionByZero, fun hzero => ?_⟩
    · rw [map_fit_eq_int hv]
      refine ⟨hx, fun hop => ?_⟩
      -- The sign and the size of a remainder are those of division down to the floor.
      obtain ⟨z, hfloor⟩ := floorDivides_of_exactResult? (hop ▸ hx)
      exact hfloor.sign_eq
    · obtain ⟨rfl, hdivides⟩ := hzero
      rw [← h, onInts_zero hdivides]

/-- The least integer modulo three: the remainder toward zero is `-2`. -/
theorem exact_of_onInts_minValue :
    onInts .mod Int64.minValue 3 = .ok (.int 1) ∧
      Op.exactResult? .mod Int64.minValue.toInt 3 = some 1 ∧ |(1 : ℤ)| < |3| := by
  have hone : onInts .mod Int64.minValue 3 = .ok (.int 1) := by decide
  obtain ⟨hexact, hsmall⟩ := (exact_of_onInts .mod Int64.minValue 3).1 1 hone
  exact ⟨hone, hexact, (hsmall rfl).2⟩

/-- **Completeness.** An operator with an exact result has it if it has 64 bits, and overflows if
    not.  Two operators leave that rule: the remainder of the least integer by `-1` is an overflow,
    though it is zero, and powers to exponents beyond 32 bits are floating-point numbers. -/
theorem complete_of_onInts (hx : op.exactResult? a.toInt b.toInt = some x) :
    (op = .mod ∧ a = Int64.minValue ∧ b = -1 → onInts op a b = .error .overflow) ∧
    (op = .pow ∧ 2 ^ 32 ≤ b.toInt → ∃ y, onInts op a b = .ok (.float y)) ∧
    (¬(op = .mod ∧ a = Int64.minValue ∧ b = -1) → ¬(op = .pow ∧ 2 ^ 32 ≤ b.toInt) →
      (Fits x → ∃ v : Int64, v.toInt = x ∧ onInts op a b = .ok (.int v)) ∧
      (¬Fits x → onInts op a b = .error .overflow)) := by
  refine ⟨?_, ?_, fun hmod hpow => ?_⟩
  · rintro ⟨rfl, rfl, rfl⟩
    exact onInts_mod_minValue
  · rintro ⟨rfl, hgreat⟩
    exact onInts_pow_float (.inr hgreat)
  · rw [onInts_eq_fit hx hmod hpow]
    refine ⟨fun hfits => ?_, fun hfits => ?_⟩
    · rw [fit_of_fits hfits]
      exact ⟨Int64.ofInt x, fit_eq_ok.1 (fit_of_fits hfits), rfl⟩
    · rw [fit_of_not_fits hfits]
      rfl

/-- A power that is the least integer has 64 bits, though its absolute value has not. -/
theorem complete_of_onInts_minValue :
    Op.exactResult? .pow (-2) 63 = some (-2 ^ 63) ∧
      onInts .pow (-2) 63 = .ok (.int Int64.minValue) := by
  have hexact : Op.exactResult? .pow (-2 : Int64).toInt (63 : Int64).toInt = some (-2 ^ 63) := by
    decide
  obtain ⟨v, hv, h⟩ := ((complete_of_onInts hexact).2.2 (by decide) (by decide)).1 (by decide)
  have hmin : v = Int64.minValue := Int64.toInt_inj.1 hv
  exact ⟨hexact, hmin ▸ h⟩

/-- Results of 64 bits that are not had: the remainder of the least integer by `-1` is an overflow,
    and one to the power `2 ^ 32` a floating-point number. -/
theorem incomplete_of_onInts :
    Op.exactResult? .mod Int64.minValue.toInt (-1 : Int64).toInt = some 0 ∧ Fits 0 ∧
      onInts .mod Int64.minValue (-1) = .error .overflow ∧
    Op.exactResult? .pow (1 : Int64).toInt (4294967296 : Int64).toInt = some 1 ∧ Fits 1 ∧
      ∃ y, onInts .pow 1 4294967296 = .ok (.float y) := by
  have hmod : Op.exactResult? .mod Int64.minValue.toInt (-1 : Int64).toInt = some 0 := by
    rw [Op.exactResult?, if_neg (by decide), floorDivides_minValue.floor_eq]
    rfl
  have hpow : Op.exactResult? .pow (1 : Int64).toInt (4294967296 : Int64).toInt = some 1 := by
    rw [Op.exactResult?, if_neg (by decide)]
    exact congrArg some (one_pow _)
  exact ⟨hmod, by decide, onInts_mod_minValue, hpow, by decide,
    onInts_pow_float (.inr (by decide))⟩

end Arith

end StackCode

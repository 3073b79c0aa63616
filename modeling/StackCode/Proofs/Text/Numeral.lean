import StackCode.Text.Numeral

namespace StackCode.Text

/-!
# Numbers are read back

Numbers are written with the digits of `Nat.toDigits`, and reading them comes to `Nat.ofDigitChars`,
which undoes it.

* `forall_mem_ofInt` — an integer is written with a minus sign and digits.
* `readInt?_ofInt`, `readInt64?_ofInt` — what is written for an integer is read as that integer.
-/

variable {cs : List Char}

/-- What each character of a list is tested for holds of all of them. -/
theorem forall_mem_of_all {P : Char → Prop} [DecidablePred P]
    (h : cs.all (fun c => decide (P c)) = true) : ∀ c ∈ cs, P c := fun c hc =>
  of_decide_eq_true (List.all_eq_true.1 h c hc)

/-- Digits are read as a number to base ten, from the number read before them. -/
theorem readDigits_eq (h : ∀ c ∈ cs, c.isDigit = true) (acc : Nat) :
    readDigits acc cs = some (Nat.ofDigitChars 10 cs acc) := by
  induction cs generalizing acc with
  | nil => rfl
  | cons c cs ih =>
    obtain ⟨hc, hcs⟩ := List.forall_mem_cons.1 h
    rw [readDigits, if_pos hc, ih hcs, Nat.ofDigitChars_cons]
    rfl

/-- A number is written in digits only. -/
theorem isDigit_of_mem_ofNat {n : Nat} {c : Char} (h : c ∈ ofNat n) : c.isDigit = true :=
  Nat.isDigit_of_mem_toDigits (by decide) (by decide) h

/-- A natural number is read back. -/
theorem readNat?_ofNat (n : Nat) : readNat? (ofNat n) = some n := by
  have hne : (ofNat n).isEmpty = false := by
    rw [List.isEmpty_eq_false_iff]
    exact Nat.toDigits_ne_nil
  rw [readNat?, hne, if_neg Bool.false_ne_true, readDigits_eq fun c hc => isDigit_of_mem_ofNat hc]
  exact congrArg some Nat.ofDigitChars_ten_toDigits

/-- A number without a sign is read as its digits are. -/
theorem readInt?_of_isDigit (h : ∀ c ∈ cs, c.isDigit = true) :
    readInt? cs = (readNat? cs).map Int.ofNat := by
  unfold readInt?
  split
  · exact absurd (h '-' List.mem_cons_self) (by decide)
  · exact absurd (h '+' List.mem_cons_self) (by decide)
  · rfl

/-- An integer is read back, its sign included. -/
theorem readInt?_ofInt (i : Int) : readInt? (ofInt i) = some i := by
  unfold ofInt
  split
  · rw [readInt?, readNat?_ofNat]
    show some (-(i.natAbs : Int)) = some i
    congr 1
    omega
  · rw [readInt?_of_isDigit fun c hc => isDigit_of_mem_ofNat hc, readNat?_ofNat, Option.map_some]
    show some (i.natAbs : Int) = some i
    congr 1
    omega

/-- A 64-bit integer is read back. -/
theorem readInt64?_ofInt (v : Int64) : readInt64? (ofInt v.toInt) = some v := by
  rw [readInt64?, readInt?_ofInt, Option.bind_some, fitInt64?_toInt]

/-- The digits and the minus sign. -/
def signAndDigits : List Char := ['-', '0', '1', '2', '3', '4', '5', '6', '7', '8', '9']

/-- Digits may stand in a numeral. -/
theorem mem_signAndDigits {c : Char} (h : c.isDigit = true) : c ∈ signAndDigits := by
  have hall : ∀ k : Fin 10, Char.ofNat (48 + k.val) ∈ signAndDigits := by decide
  obtain ⟨hlow, hhigh⟩ : 48 ≤ c.toNat ∧ c.toNat ≤ 57 := by
    simpa [Char.isDigit, UInt32.le_iff_toNat_le] using h
  have hk := hall ⟨c.toNat - 48, by omega⟩
  rwa [show 48 + (c.toNat - 48) = c.toNat by omega, Char.ofNat_toNat] at hk

/-- What holds of digits and of the minus sign holds of all characters of an integer. -/
theorem forall_mem_ofInt {P : Char → Prop} (h : ∀ c ∈ signAndDigits, P c) (i : Int) :
    ∀ c ∈ ofInt i, P c := by
  intro c hc
  unfold ofInt at hc
  apply h
  split at hc
  · rcases List.mem_cons.1 hc with rfl | hc
    · decide
    · exact mem_signAndDigits (isDigit_of_mem_ofNat hc)
  · exact mem_signAndDigits (isDigit_of_mem_ofNat hc)

/-- A numeral has characters. -/
theorem ofInt_ne_nil (i : Int) : ofInt i ≠ [] := by
  unfold ofInt
  split
  · exact List.cons_ne_nil _ _
  · exact Nat.toDigits_ne_nil

end StackCode.Text

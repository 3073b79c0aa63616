import Mathlib.Data.List.Basic
import StackCode.Signature

namespace StackCode.Signature

/-!
# Signatures among the local variables

The local variables of a unit start with its parameters by kind.  Taking the names apart by the
counts is undone by putting them together, if there are names enough.

* `ofLayout?_eq_ok` — the counts, flags and names that a signature is read from: the names start
  with its parameters.
-/

/-- An option of the first element of a list of at most one. -/
theorem toList_head?_take {α : Type} (l : List α) (p : Prop) [Decidable p] :
    (l.take (if p then 1 else 0)).head?.toList = l.take (if p then 1 else 0) := by
  split
  · cases l <;> rfl
  · rfl

/-- Where there are elements enough, the first one is taken when it is asked for, and none
    otherwise. -/
theorem isSome_head?_take {α : Type} {l : List α} {c : Bool} (h : (if c then 1 else 0) ≤ l.length) :
    (l.take (if c then 1 else 0)).head?.isSome = c := by
  cases c
  · rfl
  · cases l
    · cases h
    · rfl

/-- **Parameters.** A signature is read from the counts of its parameters, flags that tell whether
    it takes surplus arguments, and names that start with its parameters. -/
theorem ofLayout?_eq_ok {argcount kwonly : Nat} {flags : Flags} {names : List String}
    {sig : Signature} :
    ofLayout? argcount kwonly flags names = .ok sig ↔
      (sig.positional.length = argcount ∧ sig.kwonly.length = kwonly) ∧
        (flags.has .varargs = sig.varargs.isSome ∧ flags.has .varKeywords = sig.varkw.isSome) ∧
        sig.varnames <+: names := by
  unfold ofLayout?
  dsimp only
  constructor
  · intro h
    by_cases hlen : names.length < argcount + kwonly + (if flags.has .varargs then 1 else 0) +
        (if flags.has .varKeywords then 1 else 0)
    · rw [if_pos hlen] at h
      cases h
    · rw [if_neg hlen] at h
      cases h
      have hrest : (if flags.has .varargs then 1 else 0) +
          (if flags.has .varKeywords then 1 else 0) ≤ (names.drop (argcount + kwonly)).length := by
        rw [List.length_drop]
        omega
      refine ⟨⟨by simp; omega, by simp; omega⟩, ⟨?_, ?_⟩, ?_⟩
      · exact (isSome_head?_take (by omega)).symm
      · exact (isSome_head?_take (by rw [List.length_drop]; omega)).symm
      · -- The parameters are pieces of the names that follow one another.
        rw [varnames]
        dsimp only
        rw [toList_head?_take, toList_head?_take, ← List.take_add, List.append_assoc,
          ← List.take_add, ← List.take_add]
        exact List.take_prefix _ _
  · rintro ⟨⟨rfl, rfl⟩, ⟨hvarargs, hvarkw⟩, others, rfl⟩
    -- Taking the names apart by the counts gives back the pieces that they were put together from.
    have hnames : sig.varnames ++ others = sig.positional ++ (sig.kwonly ++
        (sig.varargs.toList ++ (sig.varkw.toList ++ others))) := by
      simp only [varnames, List.append_assoc]
    have hrest : (sig.varnames ++ others).drop (sig.positional.length + sig.kwonly.length) =
        sig.varargs.toList ++ (sig.varkw.toList ++ others) := by
      rw [hnames, ← List.drop_drop, List.drop_left, List.drop_left]
    have hlen : ¬(sig.varnames ++ others).length < sig.positional.length + sig.kwonly.length +
        (if sig.varargs.isSome then 1 else 0) + (if sig.varkw.isSome then 1 else 0) := by
      rw [hnames]
      cases sig.varargs <;> cases sig.varkw
      all_goals simp
      all_goals omega
    simp only [hvarargs, hvarkw]
    rw [if_neg hlen, hrest, hnames, List.take_left, List.drop_left, List.take_left]
    obtain ⟨positional, varargs, kwonly, varkw⟩ := sig
    cases varargs <;> cases varkw <;> rfl

end StackCode.Signature

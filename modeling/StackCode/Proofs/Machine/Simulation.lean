import StackCode.Proofs.Machine.Agreement
import StackCode.Proofs.Routine.RoundTrip

namespace StackCode.Machine

/-!
# Runs of units of one shape

Units that represent one shape run in step: their program counters are at the same position, and
their frames are alike.

* `run_agrees` — the runs of two such units from the same position agree.
* `eval_store_load` — a unit that was loaded and stored has the same value.
* `eval_legacy_wordcode` — the stored units of a routine under both encodings have the same value.
-/

open Routine (Stands)

variable {u u₁ u₂ : StoredUnit} {e e₁ e₂ : Encoding} {walked walked₁ walked₂ : List Located}
  {shape : List Instr} {g : Nat → Nat} {k : Nat}

/-! ### Single instructions -/

/-- The instruction at a position is fetched from its offset. -/
theorem fetch_offsetAt (h : Represents u e walked shape) (hk : k < walked.length) :
    fetch e u.code (e.offsetAt (shape.map (·.opcode)) k) = .ok walked[k] := by
  obtain ⟨byte, rest, hdrop, hfound⟩ := h.walks.locate k hk
  rw [h.opcodesOf_eq] at hdrop
  rw [fetch, hdrop]
  dsimp only
  rw [← h.offset_eq hk, hfound]
  rfl

/-- Behind the last instruction there is none. -/
theorem fetch_end (h : Represents u e walked shape) :
    fetch e u.code (e.offsetAt (shape.map (·.opcode)) shape.length) = .error .fellOffEnd := by
  rw [fetch, ← h.opcodesOf_eq, h.length_eq, ← h.walks.length_eq, List.drop_length]

/-- The position that a jump at position `k` leads to. -/
def targetAt (k : Nat) : Operand → Nat
  | .jump t => t
  | _ => k + 1

/-- A jump leads to the offset of a position. -/
theorem jumpTarget_eq (h : Represents u e walked shape) (hk : k < walked.length)
    (hk' : k < shape.length) :
    targetAt k shape[k].operand ≤ shape.length ∧ jumpTarget walked[k] =
      e.offsetAt (shape.map (·.opcode)) (targetAt k shape[k].operand) := by
  obtain ⟨hop, hstands⟩ := h.stands hk hk'
  rw [jumpTarget, hop, h.next_eq hk]
  generalize shape[k].opcode.operandClass = kind at hstands ⊢
  generalize shape[k].operand = operand at hstands ⊢
  cases hstands with
  | jumpAbs ht hoffset =>
    rw [List.length_map] at ht
    exact ⟨Nat.le_of_lt ht, hoffset.symm⟩
  | jumpRel ht hoffset =>
    rw [List.length_map] at ht
    exact ⟨Nat.le_of_lt ht, hoffset.symm⟩
  | _ => exact ⟨hk', rfl⟩

/-- A number is its operand field. -/
theorem number_of_stands {ops : List Opcode} {arg : Nat} {o : Operand}
    (h : Stands u e ops k arg .int o) (harg : arg < UInt32.size) :
    ∃ v : UInt32, o = .int v ∧ v.toNat = arg := by
  cases h
  exact ⟨_, rfl, UInt32.toNat_ofNat_of_lt' harg⟩

/-- Instructions at the same position name the same things. -/
theorem sameInstr (h₁ : Represents u₁ e₁ walked₁ shape) (h₂ : Represents u₂ e₂ walked₂ shape)
    (hg : g (e₁.offsetAt (shape.map (·.opcode)) k) = g (e₂.offsetAt (shape.map (·.opcode)) k))
    (hk₁ : k < walked₁.length) (hk₂ : k < walked₂.length) :
    SameInstr u₁ u₂ g walked₁[k] walked₂[k] := by
  have hk : k < shape.length := h₁.length_eq ▸ hk₁
  obtain ⟨hop₁, hstands₁⟩ := h₁.stands hk₁ hk
  obtain ⟨hop₂, hstands₂⟩ := h₂.stands hk₂ hk
  have hmax₁ := h₁.arg_le hk₁
  have hmax₂ := h₂.arg_le hk₂
  have hwide₁ := e₁.maxOperand_lt
  have hwide₂ := e₂.maxOperand_lt
  refine ⟨hop₁.trans hop₂.symm, ?_, fun hclass => ?_, fun hclass => ?_, fun hclass => ?_⟩
  · rw [h₁.offset_eq hk₁, h₂.offset_eq hk₂, hg]
  -- Both fields stand for the same operand, each by the tables of its own unit.
  all_goals
    rw [hop₁] at hclass
    rw [hclass] at hstands₁ hstands₂
    generalize shape[k].operand = operand at hstands₁ hstands₂
  · obtain ⟨v, rfl, harg₁⟩ := number_of_stands hstands₁ (by omega)
    obtain ⟨w, hw, harg₂⟩ := number_of_stands hstands₂ (by omega)
    cases hw
    rw [← harg₁, harg₂]
  · cases hstands₁ with
    | const hget₁ => cases hstands₂ with
      | const hget₂ => exact ⟨_, hget₁, hget₂⟩
  · cases hstands₁ with
    | localVar hget₁ => cases hstands₂ with
      | localVar hget₂ => exact ⟨_, hget₁, hget₂⟩

/-! ### Runs -/

/-- **Runs in step.** Two units of one shape that start at the same position with like frames have
    the same outcome. -/
theorem run_agrees (h₁ : Represents u₁ e₁ walked₁ shape) (h₂ : Represents u₂ e₂ walked₂ shape)
    (hnodup₁ : u₁.varnames.Nodup) (hnodup₂ : u₂.varnames.Nodup)
    (hg : ∀ k, g (e₁.offsetAt (shape.map (·.opcode)) k) =
      g (e₂.offsetAt (shape.map (·.opcode)) k))
    (done left : Nat) {f₁ f₂ : Frame} (hk : k ≤ shape.length) (hlike : Like u₁ u₂ f₁ f₂) :
    (run u₁ e₁ done left (e₁.offsetAt (shape.map (·.opcode)) k) f₁).mapError
        (EvalError.relocate g) =
      (run u₂ e₂ done left (e₂.offsetAt (shape.map (·.opcode)) k) f₂).mapError
        (EvalError.relocate g) := by
  -- The induction is on the steps that are left; the position and the frames change with each.
  induction left generalizing done k f₁ f₂ with
  | zero => rfl
  | succ left ih =>
    rw [run, run]
    by_cases hend : k = shape.length
    · rw [hend, fetch_end h₁, fetch_end h₂]
      rfl
    · have hk' : k < shape.length := by omega
      have hk₁ : k < walked₁.length := h₁.length_eq ▸ hk'
      have hk₂ : k < walked₂.length := h₂.length_eq ▸ hk'
      obtain ⟨htarget, hjump₁⟩ := jumpTarget_eq h₁ hk₁ hk'
      obtain ⟨-, hjump₂⟩ := jumpTarget_eq h₂ hk₂ hk'
      have hstep := step_agrees (sameInstr h₁ h₂ (hg k) hk₁ hk₂) hnodup₁ hnodup₂ f₁ f₂ hlike
      rw [fetch_offsetAt h₁ hk₁, fetch_offsetAt h₂ hk₂]
      simp only [bind, Except.bind]
      rw [h₁.next_eq hk₁, h₂.next_eq hk₂, hjump₁, hjump₂]
      generalize (step u₁ walked₁[k]).run f₁ = r₁ at hstep ⊢
      generalize (step u₂ walked₂[k]).run f₂ = r₂ at hstep ⊢
      cases hstep with
      | error herr => exact congrArg Except.error herr
      -- Both go on at the next position or at that of the target, with frames that are alike.
      | @ok flow f₁' f₂' hlike' =>
        cases flow with
        | next => exact ih (done + 1) hk' hlike'
        | jump => exact ih (done + 1) htarget hlike'
        | done value =>
          dsimp only
          rw [hlike'.maxDepth]

/-- **Values in step.** Units of one shape with the same counts of parameters and like frames to
    start with have the same value. -/
theorem eval_agrees (h₁ : Represents u₁ e₁ walked₁ shape) (h₂ : Represents u₂ e₂ walked₂ shape)
    (hnodup₁ : u₁.varnames.Nodup) (hnodup₂ : u₂.varnames.Nodup)
    (hg : ∀ k, g (e₁.offsetAt (shape.map (·.opcode)) k) =
      g (e₂.offsetAt (shape.map (·.opcode)) k))
    (hargcount : u₁.argcount = u₂.argcount) (hkwonly : u₁.kwonlyargcount = u₂.kwonlyargcount)
    (args : List Const)
    (hentry : args.length = (u₁.argcount + u₁.kwonlyargcount).toNat →
      Like u₁ u₂ (entryFrame u₁ args) (entryFrame u₂ args)) (limit : Nat) :
    (eval? u₁ e₁ args limit).mapError (EvalError.relocate g) =
      (eval? u₂ e₂ args limit).mapError (EvalError.relocate g) := by
  unfold eval?
  rw [← hargcount, ← hkwonly]
  by_cases hargs : args.length = (u₁.argcount + u₁.kwonlyargcount).toNat
  · rw [if_neg (not_not.2 hargs), if_neg (not_not.2 hargs)]
    have hrun := run_agrees h₁ h₂ hnodup₁ hnodup₂ hg 0 limit (Nat.zero_le _) (hentry hargs)
    rwa [Encoding.offsetAt_zero, Encoding.offsetAt_zero] at hrun
  · rw [if_pos hargs, if_pos hargs]

/-! ### Frames to start with -/

/-- Arguments stand in the first local variables, and the others are without a value. -/
theorem getElem?_entryFrame (u : StoredUnit) (args : List Const) (i : Nat)
    (hi : i < u.varnames.length) : (entryFrame u args).locals[i]? = some args[i]? := by
  rw [entryFrame, List.getElem?_toArray]
  by_cases hlt : i < args.length
  · rw [List.getElem?_append_left (by simpa using hlt)]
    simp [hlt]
  · rw [List.getElem?_append_right (by simpa using hlt)]
    simp only [List.length_map]
    rw [List.getElem?_replicate, if_pos (by omega), List.getElem?_eq_none (by omega)]

/-- Where the arguments are the first locals of both units, the frames are alike. -/
theorem like_entryFrame {params : List String} {args : List Const}
    (hnodup₁ : u₁.varnames.Nodup) (hnodup₂ : u₂.varnames.Nodup)
    (h₁ : params <+: u₁.varnames) (h₂ : params <+: u₂.varnames)
    (hargs : args.length ≤ params.length) :
    Like u₁ u₂ (entryFrame u₁ args) (entryFrame u₂ args) := by
  refine ⟨rfl, rfl, fun i j ⟨name, hi, hj⟩ => ?_⟩
  -- Both tables of locals start with the parameters.
  have hget : ∀ {u : StoredUnit} (_ : params <+: u.varnames) (i : Nat), i < params.length →
      u.varnames[i]? = params[i]? := by
    intro u h i hlt
    obtain ⟨others, hothers⟩ := h
    rw [← hothers, List.getElem?_append_left hlt]
  have hsame : args[i]? = args[j]? := by
    by_cases hlt : i < params.length
    · -- A parameter has the same index in both units.
      have hij : i = j := by
        refine eq_of_getElem? hnodup₂ ?_ hj
        rw [hget h₂ i hlt, ← hget h₁ i hlt, hi]
      rw [hij]
    · -- Other locals are behind the arguments, and have no content to start with.
      have hlt' : ¬j < params.length := by
        intro hlt'
        have hji : j = i := by
          refine eq_of_getElem? hnodup₁ ?_ hi
          rw [hget h₁ j hlt', ← hget h₂ j hlt', hj]
        exact hlt (hji ▸ hlt')
      rw [List.getElem?_eq_none (by omega), List.getElem?_eq_none (by omega)]
  obtain ⟨hlen₁, -⟩ := List.getElem?_eq_some_iff.1 hi
  obtain ⟨hlen₂, -⟩ := List.getElem?_eq_some_iff.1 hj
  exact ⟨args[i]?, getElem?_entryFrame u₁ args i hlen₁,
    by rw [getElem?_entryFrame u₂ args j hlen₂, hsame]⟩

/-- Units with the same names of locals start with like frames. -/
theorem like_entryFrame_of_eq (hnodup : u₁.varnames.Nodup) (h : u₁.varnames = u₂.varnames)
    (args : List Const) : Like u₁ u₂ (entryFrame u₁ args) (entryFrame u₂ args) := by
  refine ⟨rfl, rfl, fun i j ⟨name, hi, hj⟩ => ?_⟩
  obtain ⟨hlen₁, -⟩ := List.getElem?_eq_some_iff.1 hi
  obtain ⟨hlen₂, -⟩ := List.getElem?_eq_some_iff.1 hj
  have hij : i = j := eq_of_getElem? hnodup hi (h ▸ hj)
  subst hij
  exact ⟨args[i]?, getElem?_entryFrame u₁ args i hlen₁, getElem?_entryFrame u₂ args i hlen₂⟩

/-! ### Values of stored units -/

/-- Errors at their own offsets are what they are, in results too. -/
theorem mapError_relocate_id {α : Type} (r : Except EvalError α) :
    r.mapError (EvalError.relocate id) = r := by
  cases r with
  | ok a => rfl
  | error err => exact congrArg Except.error err.relocate_id

/-- A unit that was loaded and the unit that it is stored as start with like frames: the parameters
    come first among the locals of both. -/
theorem like_entryFrame_of_store {c : Routine} {raw r : StoredUnit} (hnames : raw.varnames.Nodup)
    (hload : Routine.load? raw e = .ok c) (hstore : c.store? { encoding := some e } = .ok r)
    {args : List Const} (hargs : args.length = (raw.argcount + raw.kwonlyargcount).toNat) :
    Like r raw (entryFrame r args) (entryFrame raw args) := by
  obtain ⟨walked, shape, lines, signature, -, -, hsignature, rfl⟩ := Routine.load?_eq_ok.1 hload
  obtain ⟨code, lineTable, -, -, -, rfl⟩ := Routine.store?_eq_ok.1 hstore
  obtain ⟨⟨hargcount, hkwonly⟩, -, hparams⟩ := Signature.ofLayout?_eq_ok.1 hsignature
  have hinit : signature.positional ++ signature.kwonly <+: signature.varnames :=
    ⟨signature.varargs.toList ++ signature.varkw.toList, by
      simp only [Signature.varnames, List.append_assoc]⟩
  have hsignames : signature.varnames.Nodup := hnames.sublist hparams.sublist
  obtain ⟨others, hothers⟩ :=
    Body.varnames_eq (b := (Routine.loaded raw e shape lines signature).toBody) hsignames
  have hfirst : signature.varnames <+: (Routine.loaded raw e shape lines signature).varnames :=
    ⟨others, hothers.symm⟩
  refine like_entryFrame Body.nodup_varnames hnames (hinit.trans hfirst) (hinit.trans hparams) ?_
  -- The sum of the counts is taken in 32 bits, which makes it smaller or leaves it as it is.
  rw [hargs, List.length_append, hargcount, hkwonly, UInt32.toNat_add]
  exact Nat.mod_le _ _

/-- **Loading and storing keep the value.** A unit whose locals have distinct names has the same
    value, or the same error, after it was loaded and stored. -/
theorem eval_store_load {c : Routine} {raw r : StoredUnit} (hnames : raw.varnames.Nodup)
    (hload : Routine.load? raw e = .ok c) (hstore : c.store? { encoding := some e } = .ok r)
    (args : List Const) (limit : Nat) : eval? r e args limit = eval? raw e args limit := by
  obtain ⟨hargcount, hkwonly, -, -, -, -, -, -⟩ := Routine.sameHeader_of_store hload hstore
  have hlike : args.length = (raw.argcount + raw.kwonlyargcount).toNat →
      Like r raw (entryFrame r args) (entryFrame raw args) := fun hargs =>
    like_entryFrame_of_store hnames hload hstore hargs
  rw [← hargcount, ← hkwonly] at hlike
  obtain ⟨walked, shape, lines, signature, hrep, -, -, rfl⟩ := Routine.load?_eq_ok.1 hload
  obtain ⟨walked', hrep'⟩ := Routine.represents_of_store (Routine.sound_loaded hrep _ _) hstore
  rw [Routine.shape_loaded hrep] at hrep'
  have hnodup : r.varnames.Nodup := by
    obtain ⟨code, lineTable, -, -, -, rfl⟩ := Routine.store?_eq_ok.1 hstore
    exact Body.nodup_varnames
  -- Offsets are the same on both sides, so that errors agree with their offsets.
  have hagree := eval_agrees (g := id) hrep' hrep hnodup hnames (fun _ => rfl) hargcount hkwonly
    args hlike limit
  rwa [mapError_relocate_id, mapError_relocate_id] at hagree

/-- Counting down from two takes eighteen steps, also behind a round trip. -/
theorem eval_store_load_countdown :
    ∃ r, Routine.countdown.store? { encoding := some .wordcode } = .ok r ∧
      eval? r .wordcode [.int 2] 100 = .ok ⟨.none, 18, 2⟩ := by
  have hload : Routine.load? Routine.countdownUnit .wordcode = .ok Routine.countdown := by
    decide +kernel
  have hstore : (Routine.countdown.store? { encoding := some .wordcode }).isOk = true := by
    decide +kernel
  obtain ⟨r, hstore⟩ := exists_of_isOk hstore
  have hsame := eval_store_load (by decide) hload hstore [.int 2] 100
  exact ⟨r, hstore, hsame.trans (by decide +kernel)⟩

/-- **Both encodings have the same value.** The stored units of a sound routine under the two
    encodings have the same value after the same steps, or the same error but for its offset. -/
theorem eval_legacy_wordcode {c : Routine} {l w : StoredUnit} (hc : c.Sound)
    (hl : c.store? { encoding := some .legacy } = .ok l)
    (hw : c.store? { encoding := some .wordcode } = .ok w) (args : List Const) (limit : Nat) :
    (eval? l .legacy args limit).mapError (EvalError.relocate fun _ => 0) =
      (eval? w .wordcode args limit).mapError (EvalError.relocate fun _ => 0) := by
  obtain ⟨walked₁, hrep₁⟩ := Routine.represents_of_store hc hl
  obtain ⟨walked₂, hrep₂⟩ := Routine.represents_of_store hc hw
  obtain ⟨code₁, lineTable₁, -, -, -, rfl⟩ := Routine.store?_eq_ok.1 hl
  obtain ⟨code₂, lineTable₂, -, -, -, rfl⟩ := Routine.store?_eq_ok.1 hw
  have hnodup₁ : (c.stored code₁ lineTable₁).varnames.Nodup := Body.nodup_varnames
  have hnodup₂ : (c.stored code₂ lineTable₂).varnames.Nodup := Body.nodup_varnames
  have hsame : (c.stored code₁ lineTable₁).varnames = (c.stored code₂ lineTable₂).varnames := rfl
  exact eval_agrees hrep₁ hrep₂ hnodup₁ hnodup₂ (fun _ => rfl) rfl rfl args
    (fun _ => like_entryFrame_of_eq hnodup₁ hsame args) limit

/-- A loop that counts down from two has the same outcome in both encodings. -/
theorem eval_legacy_wordcode_countdown :
    ∃ l w, Routine.countdown.store? { encoding := some .legacy } = .ok l ∧
      Routine.countdown.store? { encoding := some .wordcode } = .ok w ∧
      (eval? l .legacy [.int 2] 100).mapError (EvalError.relocate fun _ => 0) =
        (eval? w .wordcode [.int 2] 100).mapError (EvalError.relocate fun _ => 0) := by
  have hlegacy : (Routine.countdown.store? { encoding := some .legacy }).isOk = true := by
    decide +kernel
  have hwordcode : (Routine.countdown.store? { encoding := some .wordcode }).isOk = true := by
    decide +kernel
  obtain ⟨l, hl⟩ := exists_of_isOk hlegacy
  obtain ⟨w, hw⟩ := exists_of_isOk hwordcode
  exact ⟨l, w, hl, hw, eval_legacy_wordcode (by decide +kernel) hl hw [.int 2] 100⟩

end StackCode.Machine

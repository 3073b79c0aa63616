import StackCode.Proofs.Machine.Runs
import StackCode.Proofs.Routine.RoundTrip

namespace StackCode.Machine

/-!
# Step limits

A run is determined by its turns alone: a step limit only decides whether it gets to its end.

* `Ends` — the number of turns that go on, and what comes of the turn behind them.
* `run_of_ends` — the outcome of a run with any number of steps left, by the end of its turns.
* `exists_ends_of_run` — a run that is not cut short gets to the end of its turns.
* `eval_of_limit` — values and errors under two limits.
-/

variable {unit : StoredUnit} {e : Encoding}

/-- From `pc` on, `k` turns go on, and the turn behind them returns a value, with the greatest depth
    until then, or fails. -/
inductive Ends (unit : StoredUnit) (e : Encoding) :
    (pc : Nat) → Frame → (k : Nat) → Except EvalError (Const × Nat) → Prop where
  | returns {pc : Nat} {frame frame' : Frame} {value : Const}
      (hturn : turn unit e pc frame = .returns value frame') :
      Ends unit e pc frame 0 (.ok (value, frame'.maxDepth))
  | fails {pc : Nat} {frame : Frame} {err : EvalError}
      (hturn : turn unit e pc frame = .fails err) : Ends unit e pc frame 0 (.error err)
  | goes {pc pc' k : Nat} {frame frame' : Frame} {last : Except EvalError (Const × Nat)}
      (hturn : turn unit e pc frame = .goes pc' frame') (hends : Ends unit e pc' frame' k last) :
      Ends unit e pc frame (k + 1) last

variable {done left pc k : Nat} {frame : Frame} {last : Except EvalError (Const × Nat)}

/-- **Ends.** A run with enough steps left gets to the end of its turns; all others are cut short,
    after as many steps as they had. -/
theorem run_of_ends (h : Ends unit e pc frame k last) (done left : Nat) :
    run unit e done left pc frame =
      if k < left then last.map fun (value, depth) => ⟨value, done + k + 1, depth⟩
      else .error (.stepLimit (done + left)) := by
  -- The induction is on the turns that go on; each takes one of the steps that are left.
  induction h generalizing done left with
  | returns hturn =>
    cases left with
    | zero => rfl
    | succ left =>
      rw [run_succ, hturn, if_pos (Nat.succ_pos left)]
      rfl
  | fails hturn =>
    cases left with
    | zero => rfl
    | succ left =>
      rw [run_succ, hturn, if_pos (Nat.succ_pos left)]
      rfl
  | @goes pc pc' k frame frame' last hturn hends ih =>
    cases left with
    | zero => rfl
    | succ left =>
      rw [run_succ, hturn]
      dsimp only
      rw [ih, Nat.add_right_comm done 1 k, Nat.add_assoc done 1 left, Nat.add_comm 1 left]
      simp only [Nat.add_lt_add_iff_right]
      rfl

/-- A run that is not cut short gets to the end of its turns, with the steps that it has. -/
theorem exists_ends_of_run (h : run unit e done left pc frame ≠ .error (.stepLimit (done + left))) :
    ∃ k < left, ∃ last, Ends unit e pc frame k last := by
  induction left generalizing done pc frame with
  | zero => exact absurd rfl h
  | succ left ih =>
    rw [run_succ] at h
    cases hturn : turn unit e pc frame with
    | goes pc' frame' =>
      rw [hturn, Nat.add_comm left, ← Nat.add_assoc] at h
      obtain ⟨k, hk, last, hends⟩ := ih h
      exact ⟨k + 1, Nat.succ_lt_succ hk, last, .goes hturn hends⟩
    | returns value frame' => exact ⟨0, Nat.succ_pos left, _, .returns hturn⟩
    | fails err => exact ⟨0, Nat.succ_pos left, _, .fails hturn⟩

/-- **Limits.** What a unit comes to under a limit, it comes to under all greater ones, unless it is
    cut short.  A value takes at least one step, and as many as the limit allows at most; every
    limit below that number cuts the run short. -/
theorem eval_of_limit (unit : StoredUnit) (e : Encoding) (args : List Const) :
    (∀ n m, n ≤ m → (∀ j, eval? unit e args n ≠ .error (.stepLimit j)) →
      eval? unit e args m = eval? unit e args n) ∧
    ∀ n outcome, eval? unit e args n = .ok outcome →
      1 ≤ outcome.steps ∧ outcome.steps ≤ n ∧
        ∀ j < outcome.steps, eval? unit e args j = .error (.stepLimit j) := by
  by_cases hargs : args.length ≠ (unit.argcount + unit.kwonlyargcount).toNat
  · -- Without arguments for all parameters the limit is not looked at.
    have heval (limit : Nat) : eval? unit e args limit =
        .error (.argCount (unit.argcount + unit.kwonlyargcount).toNat args.length) :=
      if_pos hargs
    simp only [heval]
    exact ⟨fun _ _ _ _ => trivial, nofun⟩
  · have heval (limit : Nat) :
        eval? unit e args limit = run unit e 0 limit 0 (entryFrame unit args) := if_neg hargs
    simp only [heval]
    constructor
    · -- A run that does not stop at the limit has come to the end of its turns.
      intro n m hnm hlimit
      obtain ⟨k, hk, last, hends⟩ := exists_ends_of_run (hlimit (0 + n))
      rw [run_of_ends hends, run_of_ends hends, if_pos hk, if_pos (Nat.lt_of_lt_of_le hk hnm)]
    · intro n outcome hrun
      have hlimit : run unit e 0 n 0 (entryFrame unit args) ≠ .error (.stepLimit (0 + n)) := by
        rw [hrun]
        nofun
      obtain ⟨k, hk, last, hends⟩ := exists_ends_of_run hlimit
      rw [run_of_ends hends, if_pos hk] at hrun
      obtain ⟨⟨value, depth⟩, rfl, rfl⟩ := map_eq_ok.1 hrun
      dsimp only
      -- The same turns do not fit into fewer steps.
      refine ⟨by omega, by omega, fun j hj => ?_⟩
      rw [run_of_ends hends, if_neg (by omega), Nat.zero_add]

/-- Counting down from two takes eighteen steps, and no fewer. -/
theorem eval_of_limit_countdown :
    eval? Routine.countdownUnit .wordcode [.int 2] 100 = .ok ⟨.none, 18, 2⟩ ∧
      eval? Routine.countdownUnit .wordcode [.int 2] 1000 = .ok ⟨.none, 18, 2⟩ ∧
      eval? Routine.countdownUnit .wordcode [.int 2] 17 = .error (.stepLimit 17) := by
  have hvalue : eval? Routine.countdownUnit .wordcode [.int 2] 100 = .ok ⟨.none, 18, 2⟩ := by
    decide +kernel
  obtain ⟨hmore, hless⟩ := eval_of_limit Routine.countdownUnit .wordcode [.int 2]
  refine ⟨hvalue, ?_, (hless 100 _ hvalue).2.2 17 (by decide)⟩
  rw [hmore 100 1000 (by decide) (by rw [hvalue]; nofun), hvalue]

end StackCode.Machine

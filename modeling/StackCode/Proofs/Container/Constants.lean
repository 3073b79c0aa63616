import StackCode.Proofs.Container.Sections

namespace StackCode

/-!
# Constants of a container

The reader has a bound on the depth of constants.  One step of it is described here with the reader
of the items left open, so that a proof about constants needs the step and an induction.

* `Const.write?_tuple_eq_ok`, `Const.write?_code_eq_ok` — what is written for constants with others
  in them.
* `Const.StandsBetween` — what one constant is read from, by the case.
* `Const.run_read` — one constant is read where it stands, and nowhere else.
-/

namespace Const

open Reader

variable {c : Const} {items : List Const} {unit : StoredUnit} {bytes : List UInt8}

/-! ### Writing -/

/-- Items are written one behind the other. -/
theorem writeItems?_cons : writeItems? (c :: items) = andThen c.write? (writeItems? items) := by
  rw [writeItems?]
  rfl

/-- A tuple is written as its tag, the number of its items, and the items. -/
theorem write?_tuple_eq_ok :
    (tuple items).write? = .ok bytes ↔
      ∃ n body, count? items.length = .ok n ∧ writeItems? items = .ok body ∧
        bytes = [7] ++ n ++ body := by
  rw [write?]
  simp only [bind_eq_ok]
  constructor
  · rintro ⟨n, hn, body, hbody, h⟩
    cases h
    exact ⟨n, body, hn, hbody, rfl⟩
  · rintro ⟨n, body, hn, hbody, rfl⟩
    exact ⟨n, hn, body, hbody, rfl⟩

/-- A unit is written as its tag and a blob of its sections. -/
theorem write?_code_eq_ok :
    (code unit).write? = .ok bytes ↔
      ∃ content, unit.write? = .ok content ∧ writeFields? [.u8 8, .blob content] = .ok bytes := by
  rw [write?, bind_eq_ok]

/-- A constant takes at least the byte of its tag. -/
theorem length_pos_of_write? (h : c.write? = .ok bytes) : 0 < bytes.length := by
  cases c with
  | none | ellipsis | bool b =>
    rw [write?] at h
    cases h
    exact Nat.succ_pos _
  | int v | float x | str v | bytes bs =>
    rw [write?] at h
    obtain ⟨rest, -, rfl⟩ := writeFields?_tagged.1 h
    exact Nat.succ_pos _
  | tuple items =>
    obtain ⟨n, body, -, -, rfl⟩ := write?_tuple_eq_ok.1 h
    exact Nat.succ_pos _
  | code unit =>
    obtain ⟨content, -, hblob⟩ := write?_code_eq_ok.1 h
    obtain ⟨rest, -, rfl⟩ := writeFields?_tagged.1 hblob
    exact Nat.succ_pos _

/-! ### Reading -/

/-- What stands between `s` and `s'` where a constant is read, whose items are read by `item`. -/
def StandsBetween (item : Reader Const) (s s' : Input) : Const → Prop
  | .none => s.Begins (writeFields? [.u8 0]) s'
  | .ellipsis => s.Begins (writeFields? [.u8 1]) s'
  | .bool b => ∃ truth : UInt8,
      s.Begins (writeFields? [.u8 2, .u8 truth]) s' ∧ b = decide (truth ≠ 0)
  | .int v => s.Begins (writeFields? [.u8 3, .i64 v]) s'
  | .float x => s.Begins (writeFields? [.u8 4, .f64 x]) s'
  | .str v => s.Begins (writeFields? [.u8 5, .text v]) s'
  | .bytes bs => s.Begins (writeFields? [.u8 6, .blob bs]) s'
  | .tuple items => ∃ t, s.Begins (andThen (writeFields? [.u8 7]) (count? items.length)) t ∧
      (times item items.length).run t = .ok items s'
  | .code unit => ∃ content, s.Begins (writeFields? [.u8 8, .blob content]) s' ∧
      ReadsToEnd (StoredUnit.readWith item) ⟨content, 0⟩ unit

/-- **Reading.** With a depth to spare, a constant is read between two places of the input exactly
    when it stands between them: its tag, and what belongs to a constant of this tag. -/
theorem run_read {depth : Nat} {s s' : Input} :
    (Const.read (depth + 1)).run s = .ok c s' ↔ c.StandsBetween (Const.read depth) s s' := by
  rw [Const.read, inverts_u8.run_bind]
  constructor
  · rintro ⟨tag, t, htag, h⟩
    -- The tags in their order; behind any other byte the reader fails.
    split at h
    · obtain ⟨rfl, rfl⟩ := run_pure_eq_ok.1 h
      exact Input.begins_field.2 htag
    · obtain ⟨rfl, rfl⟩ := run_pure_eq_ok.1 h
      exact Input.begins_field.2 htag
    · obtain ⟨truth, t', htruth, h⟩ := inverts_u8.run_bind.1 h
      obtain ⟨rfl, rfl⟩ := run_pure_eq_ok.1 h
      exact ⟨truth, Input.begins_fields.2 ⟨t, htag, htruth⟩, rfl⟩
    · obtain ⟨v, hv, rfl⟩ := run_map_eq_ok.1 h
      exact Input.begins_fields.2 ⟨t, htag, (inverts_i64 _ _ _).1 hv⟩
    · obtain ⟨x, hx, rfl⟩ := run_map_eq_ok.1 h
      exact Input.begins_fields.2 ⟨t, htag, (inverts_f64 _ _ _).1 hx⟩
    · obtain ⟨v, hv, rfl⟩ := run_map_eq_ok.1 h
      exact Input.begins_fields.2 ⟨t, htag, (inverts_text _ _ _).1 hv⟩
    · obtain ⟨bs, hbs, rfl⟩ := run_map_eq_ok.1 h
      exact Input.begins_fields.2 ⟨t, htag, (inverts_blob _ _ _).1 hbs⟩
    · obtain ⟨items, hitems, rfl⟩ := run_map_eq_ok.1 h
      obtain ⟨t', hcount, hitems⟩ := run_counted.1 hitems
      exact ⟨t', Input.begins_andThen.2 ⟨t, Input.begins_field.2 htag, hcount⟩, hitems⟩
    · obtain ⟨content, t', hcontent, h⟩ := inverts_blob.run_bind.1 h
      obtain ⟨rfl, t'', h⟩ := run_within.1 h
      obtain ⟨unit, t''', hunit, h⟩ := run_bind_eq_ok.1 h
      obtain ⟨-, hend, rfl⟩ := run_end.1 h
      exact ⟨content, Input.begins_fields.2 ⟨t, htag, hcontent⟩, t''', hunit, hend⟩
    · cases h
  · intro h
    cases c with
    | none => exact ⟨0, s', Input.begins_field.1 h, rfl⟩
    | ellipsis => exact ⟨1, s', Input.begins_field.1 h, rfl⟩
    | bool b =>
      obtain ⟨truth, h, rfl⟩ := h
      obtain ⟨t, htag, htruth⟩ := Input.begins_fields.1 h
      exact ⟨2, t, htag, inverts_u8.run_bind.2 ⟨truth, s', htruth, rfl⟩⟩
    | int v =>
      obtain ⟨t, htag, hv⟩ := Input.begins_fields.1 h
      exact ⟨3, t, htag, run_map_eq_ok.2 ⟨v, (inverts_i64 _ _ _).2 hv, rfl⟩⟩
    | float x =>
      obtain ⟨t, htag, hx⟩ := Input.begins_fields.1 h
      exact ⟨4, t, htag, run_map_eq_ok.2 ⟨x, (inverts_f64 _ _ _).2 hx, rfl⟩⟩
    | str v =>
      obtain ⟨t, htag, hv⟩ := Input.begins_fields.1 h
      exact ⟨5, t, htag, run_map_eq_ok.2 ⟨v, (inverts_text _ _ _).2 hv, rfl⟩⟩
    | bytes bs =>
      obtain ⟨t, htag, hbs⟩ := Input.begins_fields.1 h
      exact ⟨6, t, htag, run_map_eq_ok.2 ⟨bs, (inverts_blob _ _ _).2 hbs, rfl⟩⟩
    | tuple items =>
      obtain ⟨t', hbegins, hitems⟩ := h
      obtain ⟨t, htag, hcount⟩ := Input.begins_andThen.1 hbegins
      refine ⟨7, t, Input.begins_field.1 htag, ?_⟩
      exact run_map_eq_ok.2 ⟨items, run_counted.2 ⟨t', hcount, hitems⟩, rfl⟩
    | code unit =>
      obtain ⟨content, hbegins, t', hunit, hend⟩ := h
      obtain ⟨t, htag, hcontent⟩ := Input.begins_fields.1 hbegins
      refine ⟨8, t, htag, inverts_blob.run_bind.2 ⟨content, s', hcontent, ?_⟩⟩
      exact run_within.2 ⟨rfl, t', run_bind_eq_ok.2 ⟨unit, t', hunit, run_end.2 ⟨rfl, hend, rfl⟩⟩⟩

end Const

end StackCode

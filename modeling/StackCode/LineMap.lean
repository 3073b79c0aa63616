namespace StackCode

/-!
# Line maps

* `LineMap` — lines by a key, a handle or an offset, in increasing order of the keys.
-/

/-- Lines by key. -/
structure LineMap where
  entries : List (Nat × UInt32)
  sorted : entries.Pairwise (·.1 < ·.1)
  deriving DecidableEq

namespace LineMap

/-- The map without entries. -/
def empty : LineMap := ⟨[], .nil⟩

/-- The entries with `line` at `key`, where they are in order. -/
def put (key : Nat) (line : UInt32) : List (Nat × UInt32) → List (Nat × UInt32)
  | [] => [(key, line)]
  | (k, l) :: rest =>
    if key < k then (key, line) :: (k, l) :: rest
    else if key = k then (key, line) :: rest
    else (k, l) :: put key line rest

/-- An entry is the new one, or there already. -/
theorem mem_put {key : Nat} {line : UInt32} {es : List (Nat × UInt32)} {e : Nat × UInt32}
    (h : e ∈ put key line es) : e = (key, line) ∨ e ∈ es := by
  induction es with
  | nil => simpa [put] using h
  | cons head rest ih =>
    unfold put at h
    split at h
    · grind
    · split at h <;> grind

/-- An entry is put where the order of keys wants it. -/
theorem put_sorted (key : Nat) (line : UInt32) (es : List (Nat × UInt32))
    (h : es.Pairwise (·.1 < ·.1)) : (put key line es).Pairwise (·.1 < ·.1) := by
  induction es with
  | nil => simp [put]
  | cons head rest ih =>
    obtain ⟨k, l⟩ := head
    rw [List.pairwise_cons] at h
    simp only [put]
    split
    · grind [List.pairwise_cons]
    · split
      · grind [List.pairwise_cons]
      · refine List.pairwise_cons.2 ⟨fun e he => ?_, ih h.2⟩
        rcases mem_put he with rfl | he
        · simp; omega
        · exact h.1 e he

/-- Sets the line at `key`. -/
def insert (m : LineMap) (key : Nat) (line : UInt32) : LineMap :=
  ⟨put key line m.entries, put_sorted key line m.entries m.sorted⟩

/-- The entry of a key. -/
def get? (m : LineMap) (key : Nat) : Option UInt32 := m.entries.lookup key

/-- Sets the line at `key` unless it has one. -/
def insertNew (m : LineMap) (key : Nat) (line : UInt32) : LineMap :=
  if (m.get? key).isSome then m else m.insert key line

/-- The map of some entries, where the last one of a key counts. -/
def ofList (es : List (Nat × UInt32)) : LineMap := es.foldl (fun m e => m.insert e.1 e.2) empty

end LineMap

end StackCode

import Mathlib.Data.List.Basic
import StackCode.LineMap

namespace StackCode.LineMap

/-!
# Lines by key

The list of a line map is in order and has each key once.  Hence it is known by what is looked up,
and a change is described by an equation about `get?`.

* `entries_ofList` — a line map made of entries in order has just these entries;
  `mem_of_mem_ofList` says what is left of that in any other order.
* `mem_entries` — the entries of a line map are the lines that are looked up.
* `get?_insert`, `get?_insertNew` — what is looked up after a change.
* `get?_foldl_insertNew` — of several new lines for one key the first one counts, if there was none
  before.
* `get?_foldl_place`, `lookup_place` — lines that are moved to other keys.
-/

variable {m : LineMap} {key : Nat} {line : UInt32}

/-! ### Entries -/

/-- The entry of a key beyond all others goes to the end. -/
theorem put_of_lt {key : Nat} {line : UInt32} {es : List (Nat × UInt32)}
    (h : ∀ entry ∈ es, entry.1 < key) : put key line es = es ++ [(key, line)] := by
  induction es with
  | nil => rfl
  | cons head rest ih =>
    have hhead := h head List.mem_cons_self
    obtain ⟨k, l⟩ := head
    rw [put, if_neg (by omega), if_neg (by omega), ih fun entry hentry =>
      h entry (List.mem_cons_of_mem _ hentry), List.cons_append]

/-- Entries in order are put one behind the other. -/
theorem entries_foldl_insert {es : List (Nat × UInt32)} {m : LineMap}
    (h : (m.entries ++ es).Pairwise (·.1 < ·.1)) :
    (es.foldl (fun m entry => m.insert entry.1 entry.2) m).entries = m.entries ++ es := by
  induction es generalizing m with
  | nil => rw [List.foldl_nil, List.append_nil]
  | cons head rest ih =>
    have hput : (m.insert head.1 head.2).entries = m.entries ++ [head] :=
      put_of_lt fun entry hentry => (List.pairwise_append.1 h).2.2 entry hentry head
        List.mem_cons_self
    rw [List.foldl_cons, ih, hput, List.append_assoc, List.singleton_append]
    rwa [hput, List.append_assoc, List.singleton_append]

/-- Entries in order are the entries of their map. -/
theorem entries_ofList {es : List (Nat × UInt32)} (h : es.Pairwise (·.1 < ·.1)) :
    (ofList es).entries = es := by
  rw [ofList, entries_foldl_insert (by simpa [empty] using h)]
  rfl

/-- In whatever order they come, a map has no other entries than those it is made of. -/
theorem mem_of_mem_ofList {es : List (Nat × UInt32)} {entry : Nat × UInt32}
    (h : entry ∈ (ofList es).entries) : entry ∈ es := by
  have hempty : ∀ entry ∈ LineMap.empty.entries, entry ∈ es := List.forall_mem_nil _
  refine List.foldlRecOn es _ (motive := fun m : LineMap => ∀ entry ∈ m.entries, entry ∈ es)
    hempty (fun m hm head hhead entry hentry => ?_) entry h
  rcases mem_put hentry with rfl | hentry
  · exact hhead
  · exact hm entry hentry

/-! ### Look-up -/

/-- Looking up a key tries the first entry first. -/
theorem lookup_cons_eq (entry : Nat × UInt32) (es : List (Nat × UInt32)) (key : Nat) :
    (entry :: es).lookup key = if key = entry.1 then some entry.2 else es.lookup key := by
  rw [List.lookup_cons]
  by_cases h : key = entry.1
  · rw [if_pos h, beq_iff_eq.2 h]
  · rw [if_neg h, beq_eq_false_iff_ne.2 h]

/-- Among entries in order, those that are found are the members. -/
theorem mem_iff_lookup {es : List (Nat × UInt32)} (h : es.Pairwise (·.1 < ·.1)) :
    (key, line) ∈ es ↔ es.lookup key = some line := by
  induction es with
  | nil => simp
  | cons entry rest ih =>
    obtain ⟨hentry, hrest⟩ := List.pairwise_cons.1 h
    rw [List.mem_cons, lookup_cons_eq, ih hrest]
    by_cases hkey : key = entry.1
    · -- No entry behind the first has its key.
      have hnot : rest.lookup key ≠ some line := fun hlookup =>
        Nat.ne_of_lt (hentry _ ((ih hrest).2 hlookup)) hkey.symm
      rw [if_pos hkey, Option.some.injEq, or_iff_left hnot, Prod.ext_iff, eq_comm (a := line)]
      exact and_iff_right hkey
    · rw [if_neg hkey, Prod.ext_iff]
      exact or_iff_right fun h => hkey h.1

/-- The entries are the lines that are looked up. -/
theorem mem_entries : (key, line) ∈ m.entries ↔ m.get? key = some line :=
  mem_iff_lookup m.sorted

/-- What was put is found under its key, and nothing else changes. -/
theorem lookup_put (es : List (Nat × UInt32)) (key' : Nat) :
    (put key line es).lookup key' = if key' = key then some line else es.lookup key' := by
  induction es with
  | nil => rw [put, lookup_cons_eq]
  | cons entry rest ih =>
    rw [put]
    split
    · rw [lookup_cons_eq]
    · split
      · rename_i heq
        rw [lookup_cons_eq, lookup_cons_eq]
        by_cases h : key' = key
        · rw [if_pos h, if_pos h]
        · rw [if_neg h, if_neg h, if_neg (heq ▸ h)]
      · rename_i hne
        rw [lookup_cons_eq, lookup_cons_eq, ih]
        by_cases h : key' = entry.1
        · rw [if_pos h, if_neg fun hkey => hne (hkey.symm.trans h), if_pos h]
        · rw [if_neg h, if_neg h]

/-- An inserted line is found under its key, and takes the place of an older one. -/
theorem get?_insert (key' : Nat) :
    (m.insert key line).get? key' = if key' = key then some line else m.get? key' :=
  lookup_put m.entries key'

/-- A line that is inserted anew is found only where there was none. -/
theorem get?_insertNew (key' : Nat) :
    (m.insertNew key line).get? key' =
      (m.get? key').or (if key' = key then some line else none) := by
  unfold insertNew
  cases hget : m.get? key with
  | some l =>
    simp only [Option.isSome_some, if_true]
    by_cases h : key' = key
    · rw [h, hget, Option.some_or]
    · rw [if_neg h, Option.or_none]
  | none =>
    simp only [Option.isSome_none, Bool.false_eq_true, if_false]
    rw [get?_insert]
    by_cases h : key' = key
    · rw [if_pos h, if_pos h, h, hget, Option.none_or]
    · rw [if_neg h, if_neg h, Option.or_none]

/-- **First lines.** What was there before stays, and then the first of the new lines counts. -/
theorem get?_foldl_insertNew (es : List (Nat × UInt32)) (key : Nat) :
    (es.foldl (fun m entry => m.insertNew entry.1 entry.2) m).get? key =
      (m.get? key).or (es.lookup key) := by
  induction es generalizing m with
  | nil => rw [List.foldl_nil, List.lookup_nil, Option.or_none]
  | cons entry rest ih =>
    rw [List.foldl_cons, ih, get?_insertNew, lookup_cons_eq, Option.or_assoc]
    congr 1
    split <;> rfl

/-! ### Lines that are moved -/

variable {place : Nat → Option Nat} {es : List (Nat × UInt32)} {offset : Nat}

/-- Lines that are put at the places of their keys: at the place of a single key there is the line
    of that key. -/
theorem get?_foldl_place (hplace : ∀ k, place k = some offset ↔ k = key)
    (hes : es.Pairwise (·.1 < ·.1)) :
    (es.foldl (fun m entry =>
      match place entry.1 with
      | some o => m.insert o entry.2
      | none => m) m).get? offset = (es.lookup key).or (m.get? offset) := by
  induction es generalizing m with
  | nil => rw [List.foldl_nil, List.lookup_nil, Option.none_or]
  | cons entry rest ih =>
    obtain ⟨hentry, hrest⟩ := List.pairwise_cons.1 hes
    rw [List.foldl_cons, ih hrest, lookup_cons_eq]
    by_cases hkey : key = entry.1
    · -- No entry behind the first has its key.
      have hnone : rest.lookup key = none := by
        refine Option.eq_none_iff_forall_not_mem.2 fun l hl => ?_
        exact Nat.ne_of_lt (hentry _ ((mem_iff_lookup hrest).2 hl)) hkey.symm
      rw [if_pos hkey, hnone, (hplace entry.1).2 hkey.symm]
      dsimp only
      rw [get?_insert, if_pos rfl, Option.none_or, Option.some_or]
    · -- The entry goes to another place, so that the line at `offset` stays.
      rw [if_neg hkey]
      congr 1
      split
      · rename_i o ho
        rw [get?_insert, if_neg]
        rintro rfl
        exact hkey ((hplace entry.1).1 ho).symm
      · rfl

/-- Entries that are moved to the places of their keys: the first entry with a place is found
    there. -/
theorem lookup_place (es : List (Nat × UInt32)) :
    (es.filterMap fun entry => (place entry.1).map (·, entry.2)).lookup offset =
      (es.find? fun entry => place entry.1 = some offset).map (·.2) := by
  induction es with
  | nil => rfl
  | cons entry rest ih =>
    rw [List.filterMap_cons, List.find?_cons]
    cases hplace : place entry.1 with
    | none => exact ih
    | some o =>
      dsimp only [Option.map_some]
      rw [lookup_cons_eq]
      by_cases ho : offset = o
      · rw [if_pos ho, ho, decide_eq_true rfl, Option.map_some]
      · rw [if_neg ho, ih, decide_eq_false fun h => ho (Option.some.inj h).symm]

/-- The first entry of a map that is selected by its key is that of the least key selected. -/
theorem find?_entries (select : Nat → Bool) {entry : Nat × UInt32} :
    m.entries.find? (fun entry => select entry.1) = some entry ↔
      m.get? entry.1 = some entry.2 ∧ select entry.1 = true ∧
        ∀ k < entry.1, select k = true → m.get? k = none := by
  rw [List.find?_eq_some_iff_append]
  constructor
  · rintro ⟨hselect, before, behind, hentries, hbefore⟩
    have hmem : entry ∈ m.entries := hentries ▸ List.mem_append_right _ List.mem_cons_self
    refine ⟨mem_entries.1 hmem, hselect, fun k hk hk' => ?_⟩
    refine Option.eq_none_iff_forall_not_mem.2 fun l hl => ?_
    have hother : (k, l) ∈ before ++ entry :: behind := hentries ▸ mem_entries.2 hl
    -- What stands before the entry has a lesser key, and is not selected.
    have hsorted := m.sorted
    rw [hentries, List.pairwise_append, List.pairwise_cons] at hsorted
    -- An entry before the one found was passed over, and one behind it has a greater key.
    rcases List.mem_append.1 hother with h | h
    · have hnot := hbefore _ h
      rw [hk'] at hnot
      cases hnot
    · rcases List.mem_cons.1 h with rfl | h
      · exact Nat.lt_irrefl _ hk
      · exact Nat.lt_asymm hk (hsorted.2.1.1 _ h)
  · rintro ⟨hget, hselect, hleast⟩
    obtain ⟨before, behind, hentries⟩ := List.append_of_mem (mem_entries.2 hget)
    refine ⟨hselect, before, behind, hentries, fun other hother => ?_⟩
    have hsorted := m.sorted
    rw [hentries, List.pairwise_append] at hsorted
    have hlt := hsorted.2.2 other hother entry List.mem_cons_self
    have hline : m.get? other.1 = some other.2 :=
      mem_entries.1 (hentries ▸ List.mem_append_left _ hother)
    refine Bool.not_eq_true' _ ▸ Bool.eq_false_iff.2 fun hk => ?_
    rw [hleast other.1 hlt hk] at hline
    cases hline

end StackCode.LineMap

import Mathlib.Data.List.Perm.Subperm
import Mathlib.Data.String.Basic
import StackCode.Routine.Store

namespace StackCode

/-!
# Derived tables

Stored units index their tables, and a table that is derived anew may be in another order.  What
counts is that an operand is found at its index, and that no index outgrows the field it had before.

* `nodup_consts`, `nodup_names`, `nodup_varnames` — derived tables hold nothing twice.
* `mem_consts`, `mem_names`, `mem_varnames` — they hold the operands of the live instructions, and
  the locals hold the parameters too.
* `getElem?_indexIn`, `indexIn_lt_of_subset` — an entry is found at its index, and indices are
  bounded by the size of any list that holds the table.
-/

/-! ### Lists without repetition -/

section

variable {α : Type} [BEq α] [LawfulBEq α]

/-- No element is left twice. -/
theorem nodup_eraseDups (l : List α) : l.eraseDups.Nodup := by
  -- The elements behind the first lose its repetitions, so that the list gets shorter.
  induction hn : l.length using Nat.strongRecOn generalizing l with
  | ind n ih =>
    cases l with
    | nil => exact List.nodup_nil
    | cons a as =>
      have hless := List.length_filter_le (fun b => !b == a) as
      rw [List.eraseDups_cons, List.nodup_cons]
      refine ⟨fun h => ?_, ih _ (by rw [← hn, List.length_cons]; omega) _ rfl⟩
      simpa using (List.mem_filter.1 (List.mem_eraseDups.1 h)).2

/-- Where nothing stands twice, nothing is erased. -/
theorem eraseDups_eq_self {l : List α} (h : l.Nodup) : l.eraseDups = l := by
  induction l with
  | nil => rfl
  | cons a as ih =>
    obtain ⟨ha, has⟩ := List.nodup_cons.1 h
    have hfilter : as.filter (fun b => !b == a) = as := by
      refine List.filter_eq_self.2 fun b hb => ?_
      have hne : b ≠ a := fun heq => ha (heq ▸ hb)
      simpa using hne
    rw [List.eraseDups_cons, hfilter, ih has]

/-- The place of an element in a list without its repetitions is below that of any occurrence. -/
theorem idxOf?_eraseDups_lt {l : List α} {a : α} {n : Nat} (h : a ∈ l.take n) :
    ∃ k < n, l.eraseDups.idxOf? a = some k := by
  -- Erasing starts with what it keeps of the first `n` elements, which are no more than `n`.
  have hsplit : l.eraseDups =
      (l.take n).eraseDups ++ ((l.drop n).removeAll (l.take n)).eraseDups := by
    rw [← List.eraseDups_append, List.take_append_drop]
  have hmem : a ∈ (l.take n).eraseDups := List.mem_eraseDups.2 h
  have hlen : (l.take n).eraseDups.length ≤ n := by
    have hsub := List.subperm_of_subset (nodup_eraseDups (l.take n)) fun _ => List.mem_eraseDups.1
    exact Nat.le_trans hsub.length_le (List.length_take_le _ _)
  obtain ⟨k, hk⟩ := Option.isSome_iff_exists.1 (List.isSome_idxOf?.2 hmem)
  obtain ⟨hlt, hget, hfirst⟩ := List.idxOf?_eq_some_iff.1 hk
  refine ⟨k, by omega, List.idxOf?_eq_some_iff.2 ⟨?_, ?_, fun j hj => ?_⟩⟩
  · rw [hsplit, List.length_append]
    omega
  · rw [List.getElem_of_eq hsplit, List.getElem_append_left hlt, hget]
  · rw [List.getElem_of_eq hsplit, List.getElem_append_left (Nat.lt_trans hj hlt)]
    exact hfirst j hj

end

/-! ### Sorted texts -/

namespace Body

/-- A text is inserted beside those that are there. -/
theorem mem_insertText {s t : String} {ts : List String} :
    t ∈ insertText s ts ↔ t = s ∨ t ∈ ts := by
  induction ts with
  | nil => simp [insertText]
  | cons head rest ih =>
    rw [insertText]
    split
    · rw [List.mem_cons]
    · split
      · rename_i heq
        rw [← heq, List.mem_cons, or_self_left]
      · rw [List.mem_cons, ih, List.mem_cons, or_left_comm]

/-- Texts in order stay in order, without repetition. -/
theorem insertText_sorted {s : String} {ts : List String} (h : ts.Pairwise (· < ·)) :
    (insertText s ts).Pairwise (· < ·) := by
  induction ts with
  | nil => exact List.pairwise_singleton _ _
  | cons head rest ih =>
    obtain ⟨hhead, hrest⟩ := List.pairwise_cons.1 h
    rw [insertText]
    split
    · rename_i hlt
      refine List.pairwise_cons.2 ⟨List.forall_mem_cons.2 ⟨hlt, fun t ht => ?_⟩, h⟩
      exact lt_trans hlt (hhead t ht)
    · rename_i hnlt
      split
      · exact h
      · rename_i hne
        refine List.pairwise_cons.2 ⟨fun t ht => ?_, ih hrest⟩
        rcases mem_insertText.1 ht with rfl | ht
        · exact lt_of_le_of_ne (not_lt.1 hnlt) (Ne.symm hne)
        · exact hhead t ht

/-- Texts that are inserted one after the other are in order, and all of them are there. -/
theorem foldl_insertText (ts acc : List String) (h : acc.Pairwise (· < ·)) :
    (ts.foldl (fun acc t => insertText t acc) acc).Pairwise (· < ·) ∧
      ∀ t, t ∈ ts.foldl (fun acc t => insertText t acc) acc ↔ t ∈ acc ∨ t ∈ ts := by
  induction ts generalizing acc with
  | nil => exact ⟨h, fun t => by simp⟩
  | cons head rest ih =>
    obtain ⟨hsorted, hmem⟩ := ih (insertText head acc) (insertText_sorted h)
    refine ⟨hsorted, fun t => ?_⟩
    rw [List.foldl_cons, hmem, mem_insertText, List.mem_cons, or_assoc, or_left_comm]

/-- No text stands twice among sorted texts. -/
theorem nodup_sortTexts (ts : List String) : (sortTexts ts).Nodup :=
  (foldl_insertText ts [] .nil).1.imp ne_of_lt

/-- Sorting keeps all texts. -/
theorem mem_sortTexts {t : String} {ts : List String} : t ∈ sortTexts ts ↔ t ∈ ts := by
  rw [sortTexts, (foldl_insertText ts [] .nil).2 t]
  simp

/-! ### Tables of a body -/

variable {b : Body}

/-- No constant stands twice in its table. -/
theorem nodup_consts : b.consts.Nodup := nodup_eraseDups _

/-- No name stands twice in its table. -/
theorem nodup_names : b.names.Nodup := nodup_sortTexts _

/-- No variable stands twice in its table, parameters included. -/
theorem nodup_varnames : b.varnames.Nodup := by
  refine List.nodup_append.2 ⟨nodup_eraseDups _, (nodup_sortTexts _).filter _, ?_⟩
  rintro s hs t ht rfl
  exact absurd hs (by simpa using (List.mem_filter.1 ht).2)

/-- What a selection finds in a list of operands, where it takes just the operands `mk a`. -/
theorem mem_filterMap_operand {α : Type} {select : Operand → Option α} (mk : α → Operand) {a : α}
    (h : ∀ o, select o = some a ↔ o = mk a) (os : List Operand) :
    a ∈ os.filterMap select ↔ mk a ∈ os := by
  rw [List.mem_filterMap]
  exact ⟨fun ⟨o, ho, hsome⟩ => (h o).1 hsome ▸ ho, fun ho => ⟨mk a, ho, (h _).2 rfl⟩⟩

/-- The constants are those that operands load. -/
theorem mem_consts {c : Const} : c ∈ b.consts ↔ Operand.const c ∈ b.operands := by
  rw [consts, List.mem_eraseDups]
  exact mem_filterMap_operand _ (fun o => by cases o <;> simp) _

/-- The names are those that operands name. -/
theorem mem_names {s : String} : s ∈ b.names ↔ Operand.name s ∈ b.operands := by
  rw [names, mem_sortTexts]
  exact mem_filterMap_operand _ (fun o => by cases o <;> simp) _

/-- The variables are the parameters and what operands name beside them. -/
theorem mem_varnames {s : String} :
    s ∈ b.varnames ↔ s ∈ b.signature.varnames ∨ Operand.localVar s ∈ b.operands := by
  rw [varnames, List.mem_append, List.mem_filter, mem_sortTexts, decide_eq_true_eq,
    List.mem_eraseDups, mem_filterMap_operand .localVar fun o => by cases o <;> simp]
  by_cases h : s ∈ b.signature.varnames <;> simp [h]

/-- The table of locals starts with the parameters, where none is named twice. -/
theorem varnames_eq (h : b.signature.varnames.Nodup) :
    ∃ others, b.varnames = b.signature.varnames ++ others := by
  rw [varnames, eraseDups_eq_self h]
  exact ⟨_, rfl⟩

/-! ### Indices -/

section

variable {α : Type} [BEq α] [LawfulBEq α] {table : List α} {a : α}

/-- An entry of a table is found at its index. -/
theorem getElem?_indexIn (h : a ∈ table) : table[indexIn table a]? = some a := by
  obtain ⟨k, hk⟩ := Option.isSome_iff_exists.1 (List.isSome_idxOf?.2 h)
  obtain ⟨hlt, hget, -⟩ := List.idxOf?_eq_some_iff.1 hk
  rw [indexIn, hk, Option.getD_some, List.getElem?_eq_getElem hlt, hget]

/-- The index of an entry is below the length of any list that holds the whole table. -/
theorem indexIn_lt_of_subset {m : List α} (h : a ∈ table) (hn : table.Nodup) (hsub : table ⊆ m) :
    indexIn table a < m.length := by
  have hlt : indexIn table a < table.length :=
    (List.getElem?_eq_some_iff.1 (getElem?_indexIn h)).1
  exact Nat.lt_of_lt_of_le hlt (List.subperm_of_subset hn hsub).length_le

omit [BEq α] [LawfulBEq α] in
/-- An entry among the first `n` of a list. -/
theorem mem_take_of_getElem? {n k : Nat} (h : table[k]? = some a) (hk : k < n) :
    a ∈ table.take n := by
  refine List.mem_of_getElem? (i := k) ?_
  rw [List.getElem?_take_of_lt hk, h]

/-- The cell that an index names is found no later than there. -/
theorem exists_idxOf?_le {k : Nat} (h : table[k]? = some a) :
    ∃ j ≤ k, table.idxOf? a = some j := by
  obtain ⟨j, hj⟩ := Option.isSome_iff_exists.1 (List.isSome_idxOf?.2 (List.mem_of_getElem? h))
  obtain ⟨hlt, -, hfirst⟩ := List.idxOf?_eq_some_iff.1 hj
  obtain ⟨hk, hget⟩ := List.getElem?_eq_some_iff.1 h
  refine ⟨j, Nat.le_of_not_lt fun hkj => ?_, hj⟩
  exact hfirst k hkj hget

end

/-- The index of a local is below `n` when the locals in use are among the first `n` of names that
    start with the parameters. -/
theorem indexIn_varnames_lt {m : List String} {n : Nat} {s : String}
    (hparams : b.signature.varnames <+: m)
    (hlocals : ∀ s, Operand.localVar s ∈ b.operands → s ∈ m.take n)
    (hmem : s ∈ b.varnames) (hs : s ∈ m.take n) : indexIn b.varnames s < n := by
  by_cases hparam : s ∈ b.signature.varnames.take n
  · -- Repeated parameters are only found earlier.
    obtain ⟨k, hk, hindex⟩ := idxOf?_eraseDups_lt hparam
    have hfind : b.varnames.idxOf? s = some k := by
      rw [varnames, List.idxOf?, List.findIdx?_append]
      rw [List.idxOf?] at hindex
      rw [hindex]
      rfl
    rw [indexIn, hfind]
    exact hk
  · -- The local is no early parameter, so that all parameters are among the first names.
    have hlen : b.signature.varnames.length < n := by
      refine Nat.lt_of_not_le fun hle => hparam ?_
      obtain ⟨others, rfl⟩ := hparams
      rwa [List.take_append_of_le_length hle] at hs
    have hfirst : b.signature.varnames ⊆ m.take n :=
      (List.prefix_take_iff.2 ⟨hparams, Nat.le_of_lt hlen⟩).subset
    have hsub : b.varnames ⊆ m.take n := by
      intro t ht
      rcases mem_varnames.1 ht with ht | ht
      · exact hfirst ht
      · exact hlocals t ht
    have hlt := indexIn_lt_of_subset hmem nodup_varnames hsub
    exact Nat.lt_of_lt_of_le hlt (List.length_take_le _ _)

end Body

end StackCode
